import Vcass.BlockIo.Disk.Runs

/-!
# Block I/O: the two sides of the request ring agree

The parts the backend gets are the parts the frontend published, in the same order and entry for
entry. Half of this is safety and follows from the invariant: what is not yet taken stays in the ring
as it was published, and the inner loop of `vcablk_bcknd_disk_make_request_thread` does not pass its
snapshot of `last_add`. The other half is progress: left to itself, the inner loop arrives at the
snapshot. Its program contains only operations that never wait, and every round takes a part.
-/

namespace Vcass.BlockIo.Disk

open Conc RingCounter

variable {s s' : Sys} {mq : Bool} {ls : List Label}

/-! ## Progress of the inner loop -/

/-- The operations of the backend's side, which never wait. -/
inductive FetchOp : Op → Prop
  | lastAdd : FetchOp .lastAdd
  | readEntry (idx : ℕ) : FetchOp (.readEntry idx)
  | setLastUsed (cnt : ℕ) : FetchOp (.setLastUsed cnt)

theorem FetchOp.enabled {o : Op} (h : FetchOp o) (t : Shared) : ∃ x, sem t o 0 = some x := by
  cases h with
  | lastAdd => exact ⟨_, rfl⟩
  | readEntry idx => exact ⟨_, rfl⟩
  | setLastUsed cnt => exact ⟨_, rfl⟩

/-- A program of such operations. -/
inductive FetchOnly {α : Type} : FProg α → Prop
  | ret (a : α) : FetchOnly (.ret a)
  | act {o : Op} {k : Res o → FProg α} (ho : FetchOp o) (hk : ∀ r, FetchOnly (k r)) :
      FetchOnly (.act o k)

theorem FetchOnly.bind {α β : Type} {p : FProg α} {f : α → FProg β} (h : FetchOnly p)
    (hf : ∀ a, FetchOnly (f a)) : FetchOnly (p >>= f) := by
  induction h with
  | ret a => exact hf a
  | act ho _ ih => exact .act ho ih

theorem vcablkBckndDiskGetNextLoop_fetchOnly {lastAdd fuel lastUsed cookie : ℕ}
    {requestBuff : List VcablkRequest} :
    FetchOnly (vcablkBckndDiskGetNextLoop lastAdd fuel lastUsed cookie requestBuff) := by
  induction fuel generalizing lastUsed cookie requestBuff with
  | zero => exact .ret _
  | succ fuel ih =>
    rw [vcablkBckndDiskGetNextLoop]
    split
    · exact .ret _
    · refine .act (.readEntry _) fun request ↦ ?_
      dsimp only [Prog.bind]
      generalize (if cookie = 0 then request.cookie else cookie) = newCookie
      split
      · exact ih
      · split
        · exact .ret _
        · exact ih

theorem vcablkBckndDiskGetNextRequest_fetchOnly {lastUsed : ℕ} :
    FetchOnly (vcablkBckndDiskGetNextRequest lastUsed) := by
  refine .act .lastAdd fun lastAdd ↦ ?_
  dsimp only [Prog.bind]
  split
  · exact .ret _
  · exact vcablkBckndDiskGetNextLoop_fetchOnly.bind fun _ ↦ .act (.setLastUsed _) fun _ ↦ .ret _

/-- `s'` is reached from `s` by steps of the backend's request thread alone. -/
def Fetches (mq : Bool) (s s' : Sys) : Prop :=
  ∃ n, exec (step mq) s (List.replicate n (.fetch 0)) = some s'

theorem Fetches.refl : Fetches mq s s := ⟨0, rfl⟩

theorem Fetches.head {t : Sys} (h : step mq s (.fetch 0) = some t) (ht : Fetches mq t s') :
    Fetches mq s s' := by
  obtain ⟨n, hn⟩ := ht
  exact ⟨n + 1, exec_cons.mpr ⟨t, h, hn⟩⟩

theorem Fetches.trans {t : Sys} (h : Fetches mq s t) (ht : Fetches mq t s') : Fetches mq s s' := by
  obtain ⟨n, hn⟩ := h
  obtain ⟨m, hm⟩ := ht
  exact ⟨n + m, by rw [List.replicate_add]; exact exec_append.mpr ⟨t, hn, hm⟩⟩

theorem Inv.fetches (h : Inv s) (hs : Fetches mq s s') : Inv s' := by
  obtain ⟨n, hn⟩ := hs
  exact exec_invariant (P := fun _ _ _ ↦ True) (fun hs _ hstep ↦ hs.step hstep)
    (along_of_forall fun _ _ _ ↦ trivial) h hn

theorem Inv.fetching_returns {snapshot : ℕ} {p : FProg (List VcablkRequest × ℕ)} (h : Inv s)
    (hp : FetchOnly p) (hfetcher : s.fetcher = .fetching snapshot p) :
    ∃ s' lastUsed, Fetches mq s s' ∧ s'.fetcher = .inner snapshot lastUsed ∧
      s'.target = s.target ∧ s'.fetched.length = s.fetched.length + 1 := by
  induction hp generalizing s with
  | ret a =>
    obtain ⟨g, lastUsed⟩ := a
    have hok := h.fetcher
    rw [hfetcher] at hok
    obtain ⟨n, -, -, -, -, hsafe⟩ := hok
    obtain ⟨-, ⟨q, hq, hg⟩, -⟩ := hsafe.result FetcherRely.isRely h.good
    have hne : g ≠ [] := by
      rw [show g = q.entries from hg]
      exact (h.good.parts.entries q (List.mem_of_getElem? hq)).1
    have hstep : Disk.step mq s (.fetch 0) = some { s with
        fetched := s.fetched ++ [g]
        fetcher := .inner snapshot lastUsed } := by
      simp only [Disk.step, hfetcher, if_neg hne]
    refine ⟨_, lastUsed, Fetches.head hstep .refl, rfl, rfl, ?_⟩
    simp
  | @act o k ho hk ih =>
    obtain ⟨⟨res, t⟩, hsem⟩ := ho.enabled s.shared
    have hstep : Disk.step mq s (.fetch 0) = some { s with
        shared := t
        fetcher := .fetching snapshot (k res) } := by
      simp only [Disk.step, hfetcher, advance, hsem, Option.map_some]
    obtain ⟨s', lastUsed, hrun, hinner, htarget, hlength⟩ := ih res (h.step hstep) rfl
    exact ⟨s', lastUsed, Fetches.head hstep hrun, hinner, htarget, hlength⟩

theorem Got.length_eq {parts : List Part} {fetched : List (List VcablkRequest)} {n : ℕ}
    (h : Got parts fetched n) : fetched.length = n := by
  rw [h.2, List.length_map, List.length_take, min_eq_left h.1]

theorem Inv.got (h : Inv s) : ∃ n, n ≤ s.shared.taken ∧ Got s.shared.parts s.fetched n := by
  have hok := h.fetcher
  cases hf : s.fetcher with
  | waiting lastUsed =>
    rw [hf] at hok
    exact ⟨_, le_rfl, hok.1⟩
  | inner snapshot lastUsed =>
    rw [hf] at hok
    exact ⟨_, le_rfl, hok.1⟩
  | fetching snapshot p =>
    rw [hf] at hok
    obtain ⟨n, hn, hgot, -⟩ := hok
    exact ⟨n, hn, hgot⟩

theorem Inv.snapshot_eq_iff {snapshot lastUsed : ℕ} (h : Inv s)
    (hfetcher : s.fetcher = .inner snapshot lastUsed) :
    s.fetched.length ≤ s.target ∧ (snapshot = lastUsed ↔ s.fetched.length = s.target) := by
  have hok := h.fetcher
  rw [hfetcher] at hok
  obtain ⟨hgot, hat, hle, hsnap⟩ := hok
  rw [hgot.length_eq]
  exact ⟨hle, hat.eq_iff hsnap h.good rfl hle⟩

/-- **The inner loop arrives at its snapshot.** -/
theorem Inv.inner_arrives {snapshot lastUsed : ℕ} (h : Inv s)
    (hfetcher : s.fetcher = .inner snapshot lastUsed) :
    ∃ s', Fetches mq s s' ∧ s'.fetcher = .inner snapshot snapshot ∧
      s'.fetched.length = s.target := by
  obtain ⟨hle, hiff⟩ := h.snapshot_eq_iff hfetcher
  -- the induction is on the number of parts that are still ahead
  induction hn : s.target - s.fetched.length generalizing s lastUsed with
  | zero =>
    have heq : s.fetched.length = s.target := by omega
    refine ⟨s, .refl, ?_, heq⟩
    rw [hfetcher, ← hiff.mpr heq]
  | succ n ih =>
    have hne : snapshot ≠ lastUsed := fun heq ↦ by
      have := hiff.mp heq
      omega
    have hstep : Disk.step mq s (.fetch 0) = some { s with
        fetcher := .fetching snapshot (vcablkBckndDiskGetNextRequest lastUsed) } := by
      simp only [Disk.step, hfetcher, if_neg hne]
    obtain ⟨t, lastUsed', hrun, hinner, htarget, hlength⟩ :=
      (h.step hstep).fetching_returns vcablkBckndDiskGetNextRequest_fetchOnly rfl
    have hrun' : Fetches mq s t := Fetches.head hstep hrun
    obtain ⟨hle', hiff'⟩ := (h.fetches hrun').snapshot_eq_iff hinner
    dsimp only at htarget hlength
    obtain ⟨s', hrest, hdone, hend⟩ :=
      ih (h.fetches hrun') hinner hle' hiff' (by rw [htarget, hlength]; omega)
    exact ⟨s', hrun'.trans hrest, hdone, hend.trans htarget⟩

/-! ## Agreement -/

/-- **The backend gets exactly the published parts.** In every reachable state the parts it has got
are the first ones the frontend published, what it has not released is in the ring as published, and
its inner loop is not past the snapshot, leaves when it has got what was published then, and arrives
there. -/
theorem fetched_eq_published (h : exec (step mq) init ls = some s) :
    s.fetched = (s.shared.parts.take s.fetched.length).map Part.entries ∧
      (∀ i e, (stream (s.shared.parts.take s.shared.taken)).length ≤ i →
        (stream s.shared.parts)[i]? = some e →
        s.shared.ring.elems (i % vcablkQueueRequestsNums) = e) ∧
      (∀ lastUsed, s.fetcher = .waiting lastUsed →
        (lastUsed = s.shared.ring.lastAdd ↔ s.fetched = s.shared.parts.map Part.entries)) ∧
      (∀ snapshot p, s.fetcher = .fetching snapshot p → s.fetched.length < s.target) ∧
      ∀ snapshot lastUsed, s.fetcher = .inner snapshot lastUsed →
        s.fetched.length ≤ s.target ∧ (snapshot = lastUsed ↔ s.fetched.length = s.target) ∧
        ∃ s', Fetches mq s s' ∧ s'.fetcher = .inner snapshot snapshot ∧
          s'.fetched.length = s.target := by
  have hinv := exec_inv h
  refine ⟨?_, fun i e hi he ↦ ?_, fun lastUsed hw ↦ ?_, fun snapshot p hf ↦ ?_,
    fun snapshot lastUsed hi ↦ ?_⟩
  · obtain ⟨n, -, hgot⟩ := hinv.got
    rw [hgot.length_eq]
    exact hgot.2
  · refine hinv.good.ring.elems i e hi ?_
    rw [List.getElem?_append_left (List.getElem?_eq_some_iff.mp he).1]
    exact he
  · have hok := hinv.fetcher
    rw [hw] at hok
    rw [eq_comm, hok.2.eq_iff hinv.good.atPart_lastAdd hinv.good rfl hok.1.1]
    constructor
    · intro hall
      rw [hok.1.2, hall, List.take_length]
    · intro hall
      rw [← hok.1.length_eq, hall, List.length_map]
  · have hok := hinv.fetcher
    rw [hf] at hok
    obtain ⟨n, -, hgot, hlt, -, -⟩ := hok
    rw [hgot.length_eq]
    exact hlt
  · obtain ⟨hle, hiff⟩ := hinv.snapshot_eq_iff hi
    exact ⟨hle, hiff, hinv.inner_arrives hi⟩

/-- A WRITE of two segments and one of the sectors behind it, of which the backend gets both at once. -/
def twoWrites : List Label :=
  [.requestFn ⟨1, 8, [4096, 512]⟩, .dequeue] ++ List.replicate 10 (.thread 7) ++
    [.requestFn ⟨1, 17, [4096]⟩, .dequeue] ++ List.replicate 7 (.thread 7) ++ List.replicate 14 (.fetch 0)

theorem fetched_eq_published_of_two_writes :
    ∃ s, exec (step true) init twoWrites = some s ∧
      s.fetched = [[⟨7, 8, 8, 1, .write⟩, ⟨7, 16, 1, 1, .write⟩], [⟨7, 17, 8, 2, .write⟩]] ∧
      s.shared.parts.length = 2 ∧ s.fetched = s.shared.parts.map Part.entries := by
  obtain ⟨s, hs, hw, hadd, hg, hlen⟩ : ∃ s, exec (step true) init twoWrites = some s ∧
      s.fetcher = .waiting 3 ∧ 3 = s.shared.ring.lastAdd ∧
      s.fetched = [[⟨7, 8, 8, 1, .write⟩, ⟨7, 16, 1, 1, .write⟩], [⟨7, 17, 8, 2, .write⟩]] ∧
      s.shared.parts.length = 2 := ⟨_, rfl, rfl, rfl, rfl, rfl⟩
  exact ⟨s, hs, hg, hlen, ((fetched_eq_published hs).2.2.1 3 hw).mp hadd⟩

end Vcass.BlockIo.Disk
