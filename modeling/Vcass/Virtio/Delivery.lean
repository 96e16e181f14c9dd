import Vcass.Virtio.InFlight

/-!
# Every buffer arrives, and comes back

Each step of the driver and of the host keeps the invariant of `InFlight`, so it holds in every run. The host never
meets an error, the driver never finds a bad element in the used ring, and the two lists of what came out are
beginnings of what went in.
-/

namespace Vcass.Virtio.Transport

open Conc RingBuffer RingCounter Virtqueue HostRing
open Function (update)

variable {τ : Type} {riov wiov : Option Kiov} {p : Params} {buf buf' : ℕ → Out τ} {s s' : Sys τ}
  {vq : VringVirtqueue τ}

/-- What the host has read stays right if more is published and nothing that is out is touched. -/
theorem HostOk.mono {pc : HostPc} (h : HostOk riov wiov buf s pc) (hfetched : s'.fetched = s.fetched)
    (hle : s.published ≤ s'.published) (hparams : s'.driver.toParams = s.driver.toParams)
    (hsame : ∀ head w, pc = .walking head w →
      Untouched s.driver.toBooks s'.driver.toBooks (buf s.fetched.length)) : HostOk riov wiov buf s' pc := by
  cases pc with
  | idle => trivial
  | seen idx =>
    obtain ⟨t, hidx, hfetchedle, ht⟩ := h
    exact ⟨t, hidx, by rwa [hfetched], ht.trans hle⟩
  | walking head w =>
    have hnum : s'.driver.num = s.driver.num := congrArg Params.num hparams
    obtain ⟨hhead, hway⟩ := h
    rw [HostOk, hfetched, hnum]
    exact ⟨hhead, hway.congr hparams (hsame head w rfl)⟩

/-- The buffer that the host walks over is out. -/
theorem Inv.walking_mem (h : Inv p riov wiov buf s) {head : ℕ} {w : Walk} (hpc : s.host = .walking head w) :
    s.fetched.length ∈ s.live := by
  have hlt := h.avail.taken_le.trans h.avail.published_le
  rw [Sys.taken, hpc] at hlt
  exact List.mem_append_left _ (List.mem_range'_1.mpr ⟨Nat.le_refl _, by dsimp only at hlt; omega⟩)

/-! ## Steps of the driver -/

theorem Inv.driver (h : Inv p riov wiov buf s) (hrings : SameRings s.driver vq)
    (hparams : vq.toParams = s.driver.toParams) (hsound : Sound vq.toBooks (s.live.map buf))
    (hsame : ∀ o ∈ s.live.map buf, Untouched s.driver.toBooks vq.toBooks o) {failed : Bool}
    (hbroken : vq.broken = true → failed = true) :
    Inv p riov wiov buf { s with driver := vq, notifyFailed := failed } := by
  refine { h with
    params := hparams.trans h.params
    sound := hsound
    avail := ?_
    host := ?_
    used := ?_
    broken := hbroken }
  · obtain ⟨hdriver, hmem, hhost, htaken, hpublished, hslots⟩ := h.avail
    refine ⟨hrings.availIdx.trans hdriver, hmem, hhost, htaken, hpublished, ?_⟩
    dsimp only
    rw [hrings.availRing]
    exact hslots
  · refine HostOk.mono (s := s) h.host rfl (Nat.le_refl _) hparams fun head w hpc ↦ ?_
    exact hsame _ (List.mem_map_of_mem (h.walking_mem hpc))
  · obtain ⟨hmem, hhost, hdriver, hreturned, hpublished, hslots⟩ := h.used
    exact ⟨hmem, hhost, hrings.lastUsedIdx.trans hdriver, hreturned, hpublished, hslots⟩

theorem Inv.driver_books (h : Inv p riov wiov buf s) (vq : VringVirtqueue τ) (hrings : SameRings s.driver vq)
    (hbooks : vq.toBooks = s.driver.toBooks) {failed : Bool} (hbroken : vq.broken = true → failed = true) :
    Inv p riov wiov buf { s with driver := vq, notifyFailed := failed } := by
  refine h.driver hrings (congrArg Books.toParams hbooks) ?_ (fun o _ ↦ ?_) hbroken
  · rw [hbooks]
    exact h.sound
  · rw [hbooks]
    exact untouched_refl _ o

theorem Inv.add (h : Inv p riov wiov buf s) (hsize : RingSize p.num) (hpc : s.pc = .idle)
    (htaken : Taken s.driver.toBooks (buf s.added.length) vq.toBooks) (hexposed : Exposed s.driver vq)
    (hgiven : Given riov wiov (buf s.added.length).entries) (hlen : (buf s.added.length).entries.length ≤ p.num)
    {failed : Bool} (hbroken : vq.broken = true → failed = true) :
    Inv p riov wiov buf { s with
      driver := vq
      pc := .filled
      added := s.added ++ [((buf s.added.length).token, (buf s.added.length).entries)]
      notifyFailed := failed } := by
  obtain ⟨hsound, hsame⟩ := h.sound.add htaken
  obtain ⟨hlive, hroom, hreturned⟩ := h.room
  have hfetched := h.fetched_le
  have hnum : vq.num = p.num := htaken.num_eq.trans (congrArg Params.num h.params)
  have hstrict : s.live.length + 1 ≤ p.num := by
    have hle := hsound.length_le
    rwa [List.length_cons, List.length_map, hnum] at hle
  have htakenle := h.avail.taken_le.trans h.avail.published_le
  have hpublished : s.published = s.added.length := by
    rw [Sys.published, hpc, if_neg (by decide), Nat.sub_zero]
  set s' : Sys τ := { s with
    driver := vq
    pc := .filled
    added := s.added ++ [((buf s.added.length).token, (buf s.added.length).entries)]
    notifyFailed := failed } with hs'
  have hadded : s'.added.length = s.added.length + 1 := List.length_append
  have hpublished' : s'.published = s.added.length := by
    rw [Sys.published, hadded, hs', if_pos rfl, Nat.add_sub_cancel]
  have hperm : s'.live.Perm (s.added.length :: s.live) := by
    have hrange : s'.added.length - s'.fetched.length = s.added.length - s.fetched.length + 1 := by
      rw [hadded]
      exact Nat.sub_add_comm hfetched
    have hlast : s.fetched.length + (s.added.length - s.fetched.length) = s.added.length := Nat.add_sub_cancel' hfetched
    rw [Sys.live, hrange, List.range'_concat, Nat.one_mul, hlast, List.append_assoc, Sys.live]
    exact List.perm_middle
  refine { h with
    params := htaken.params_eq.trans h.params
    added := ?_
    given := fun i hi ↦ ?_
    sound := hsound.perm (hperm.map buf).symm
    avail := ?_
    host := ?_
    used := ?_
    getter := ?_
    broken := hbroken }
  · rw [hadded, List.range_succ, List.map_append, List.map_singleton, ← h.added]
  · rcases Nat.lt_succ_iff_lt_or_eq.mp (hadded ▸ hi) with hlt | rfl
    · exact h.given i hlt
    · exact ⟨hgiven, hlen⟩
  · obtain ⟨hdriver, hmem, hhost, htaken', hpublishedle, hslots⟩ := h.avail
    have hslot : s.driver.availIdx &&& (s.driver.num - 1) = slot p.num s.added.length := by
      rw [hdriver, ← htaken.num_eq, hnum, hsize.mask]
    refine ⟨?_, ?_, hhost, ?_, ?_, ?_⟩
    · rw [hexposed.availIdx, hdriver, Nat.mod_add_mod, hadded]
    · rw [hpublished', ← hpublished]
      exact hmem
    · rw [hpublished', ← hpublished]
      exact htaken'
    · rw [hpublished', hadded]
      exact Nat.le_succ _
    · have hfetchedle := s.taken_le_succ.1
      have hpositions := h.length_positions
      rw [hexposed.availRing, hslot]
      refine hslots.update htakenle (show s.added.length < s.taken + p.num by omega) (fun _ ↦ htaken.front.1)
        fun q x hq hx hlt ↦ hx ?_
      rw [hadded] at hlt
      omega
  · refine HostOk.mono (s := s) h.host rfl ?_ htaken.params_eq fun head w hpc ↦ ?_
    · rw [hpublished', hpublished]
    · exact hsame _ (List.mem_map_of_mem (h.walking_mem hpc))
  · obtain ⟨hmem, hhost, hdriver, hreturnedle, hpublishedle, hslots⟩ := h.used
    exact ⟨hmem, hhost, hexposed.lastUsedIdx.trans hdriver, hreturnedle, hpublishedle, hslots⟩
  · rintro idx ⟨⟩

theorem Inv.addSgs (h : Inv p riov wiov buf s) (hsize : RingSize p.num) (hpc : s.pc = .idle)
    {outSgs inSgs : List (List Sg)} {data : τ} {env : AddEnv}
    (hallowed : (Label.addSgs outSgs inSgs data env).Allowed riov wiov s) :
    ∃ buf', Inv p riov wiov buf' (s.addSgs outSgs inSgs data env) := by
  obtain ⟨⟨hne, hlen, hfresh, -⟩, hgiven⟩ := hallowed
  have hnum : s.driver.num = p.num := congrArg Params.num h.params
  rw [Sys.addSgs]
  dsimp only
  rcases hadd : vcaVirtqueueAddSgs s.driver outSgs inSgs data env with ⟨r, vq⟩
  obtain ⟨hok, herr, hnotify⟩ := addSgs_rings hadd
  have hbroken : vq.broken = true → (s.notifyFailed || !env.notifyOk) = true := by
    intro hvq
    cases henv : env.notifyOk with
    | false => exact Bool.or_true _
    | true =>
      rw [hnotify henv] at hvq
      rw [h.broken hvq]
      rfl
  rcases h.sound.virtqueueAdd hne hlen hfresh hadd with
    ⟨rfl, o, rfl, hentries, htaken⟩ | ⟨hr, hbug, hsound, hparams, hsame⟩
  · have hbuf : update buf s.added.length o s.added.length = o := Function.update_self ..
    have h' := h.congr (update buf s.added.length o) fun i hi ↦ Function.update_of_ne (Nat.ne_of_lt hi) ..
    rw [← hentries] at hgiven hlen ⊢
    have hstep := h'.add hsize hpc (hbuf.symm ▸ htaken) (hok rfl) (hbuf.symm ▸ hgiven)
      (by rw [hbuf]; exact hnum ▸ hlen) hbroken
    rw [hbuf] at hstep
    exact ⟨_, hstep⟩
  · have hstep := h.driver (herr hr) hparams hsound hsame hbroken
    cases r with
    | ok => exact absurd rfl hr
    | bug => exact absurd rfl hbug
    | eio => exact ⟨buf, hstep⟩
    | enospc => exact ⟨buf, hstep⟩
    | enomem => exact ⟨buf, hstep⟩
    | overrun => exact ⟨buf, hstep⟩

theorem Inv.publishAvail (h : Inv p riov wiov buf s) :
    Inv p riov wiov buf { s with pc := .idle, availIdx := s.driver.availIdx } := by
  obtain ⟨hdriver, hmem, hhost, htaken, hpublished, hslots⟩ := h.avail
  refine { h with
    avail := ⟨hdriver, hdriver, hhost, htaken.trans hpublished, Nat.le_refl _, hslots⟩
    host := HostOk.mono (s := s) h.host rfl hpublished rfl fun _ _ _ ↦ untouched_refl _ _
    getter := ?_ }
  rintro idx ⟨⟩

theorem Inv.readUsed (h : Inv p riov wiov buf s) (hpc : s.pc = .idle) :
    Inv p riov wiov buf { s with pc := .seen s.used.idx } := by
  have hpublished : Sys.published { s with pc := .seen s.used.idx } = s.published := by
    rw [Sys.published, Sys.published, hpc, if_neg (by rintro ⟨⟩), if_neg (by rintro ⟨⟩)]
  refine { h with
    avail := ?_
    host := HostOk.mono (s := s) h.host rfl (Nat.le_of_eq hpublished.symm) rfl fun _ _ _ ↦ untouched_refl _ _
    getter := ?_ }
  · rw [hpublished]
    exact h.avail
  · rintro idx ⟨⟩
    exact ⟨s.usedPublished, h.used.memIdx_eq, h.used.returned_le, Nat.le_refl _⟩

theorem Inv.idle (h : Inv p riov wiov buf s) {idx : ℕ} (hpc : s.pc = .seen idx) :
    Inv p riov wiov buf { s with pc := .idle } := by
  have hpublished : Sys.published { s with pc := .idle } = s.published := by
    rw [Sys.published, Sys.published, hpc, if_neg (by rintro ⟨⟩), if_neg (by rintro ⟨⟩)]
  refine { h with
    avail := ?_
    host := HostOk.mono (s := s) h.host rfl (Nat.le_of_eq hpublished.symm) rfl fun _ _ _ ↦ untouched_refl _ _
    getter := ?_ }
  · rw [hpublished]
    exact h.avail
  · rintro idx ⟨⟩

theorem Inv.getBuf_eq (h : Inv p riov wiov buf s) (hsize : RingSize p.num) {idx : ℕ} (hpc : s.pc = .seen idx)
    (hbroken : s.driver.broken = false) (hmore : s.driver.lastUsedIdx ≠ idx) :
    ∃ c books, s.completed[s.returned.length]? = some c ∧ s.returned.length < s.usedPublished ∧
      s.live.Perm (c.1 :: Sys.live { s with returned := s.returned ++ [((buf c.1).token, c.2)] }) ∧
      Sound books ((Sys.live { s with returned := s.returned ++ [((buf c.1).token, c.2)] }).map buf) ∧
      books.toParams = s.driver.toParams ∧
      (∀ o ∈ (Sys.live { s with returned := s.returned ++ [((buf c.1).token, c.2)] }).map buf,
        Untouched s.driver.toBooks books o) ∧
      s.getBuf idx = { s with
        driver := advance { s.driver with toBooks := books }
        pc := .idle
        returned := s.returned ++ [((buf c.1).token, c.2)] } := by
  obtain ⟨t, rfl, hreturned, ht⟩ := h.getter idx hpc
  obtain ⟨-, -, hdriver, -, hpublished, hslots⟩ := h.used
  have hlive := h.room.1
  have hnum : s.driver.num = p.num := congrArg Params.num h.params
  have hlt : s.returned.length < t := by
    refine Nat.lt_of_le_of_ne hreturned ?_
    rintro rfl
    exact hmore hdriver
  have hinside : s.returned.length < s.completed.length := by omega
  set c := s.completed[s.returned.length] with hc
  have hget : s.completed[s.returned.length]? = some c := List.getElem?_eq_getElem hinside
  have hslot : s.driver.lastUsedIdx &&& (s.driver.num - 1) = slot p.num s.returned.length := by
    rw [hdriver, hnum, hsize.mask]
  set s' : Sys τ := { s with returned := s.returned ++ [((buf c.1).token, c.2)] } with hs'
  have hlength : s'.returned.length = s.returned.length + 1 := List.length_append
  have hperm : s.live.Perm (c.1 :: s'.live) := by
    rw [Sys.live, Sys.live, hlength, List.drop_eq_getElem_cons hinside, ← hc, List.map_cons, ← List.append_assoc,
      ← List.append_assoc]
    exact List.perm_middle
  have hpos : 0 < p.num := by
    have hlen := hperm.length_eq
    rw [List.length_cons] at hlen
    omega
  have helem : s.used.ring (s.driver.lastUsedIdx &&& (s.driver.num - 1)) = ⟨(buf c.1).head, c.2⟩ := by
    rw [hslot]
    exact hslots _ (Nat.le_refl _) (Nat.lt_add_of_pos_right hpos) c hget
  obtain ⟨books, hgetBuf, hsound, hparams, hsame⟩ := getBuf_out ⟨t % 2 ^ 16, s.used.ring⟩
    (h.sound.perm (hperm.map buf)) hbroken hmore helem
  refine ⟨c, books, hget, hlt.trans_le ht, hperm, hsound, hparams, hsame, ?_⟩
  rw [Sys.getBuf, hgetBuf]

theorem Inv.back (h : Inv p riov wiov buf s) (hsize : RingSize p.num) {idx : ℕ} (hpc : s.pc = .seen idx)
    (hbroken : s.driver.broken = false) (hmore : s.driver.lastUsedIdx ≠ idx) :
    Inv p riov wiov buf (s.getBuf idx) := by
  obtain ⟨c, books, hget, hlt, hperm, hsound, hparams, hsame, heq⟩ := h.getBuf_eq hsize hpc hbroken hmore
  obtain ⟨hmem, hhost, hdriver, -, hpublished, hslots⟩ := h.used
  obtain ⟨hlive, hroom, -⟩ := h.room
  have havail := h.avail
  have hfetched := h.fetched_le
  have hpositions := h.length_positions
  have hinside : s.returned.length < s.completed.length := (List.getElem?_eq_some_iff.mp hget).1
  set s' : Sys τ := { s with returned := s.returned ++ [((buf c.1).token, c.2)] } with hs'
  have hlength : s'.returned.length = s.returned.length + 1 := List.length_append
  have hpos : 0 < p.num := by
    have hlen := hperm.length_eq
    rw [List.length_cons] at hlen
    omega
  rw [heq]
  have hsame' : s.published = s.added.length := by
    rw [Sys.published, hpc, if_neg (by rintro ⟨⟩), Nat.sub_zero]
  have hwalking : ∀ head w, s.host = .walking head w → buf s.fetched.length ∈ s'.live.map buf := by
    intro head w hhostpc
    have hne : s.fetched.length ≠ c.1 := Nat.ne_of_gt (h.completed_lt (List.mem_of_getElem? hget))
    exact List.mem_map_of_mem ((List.mem_cons.mp (hperm.mem_iff.mp (h.walking_mem hhostpc))).resolve_left hne)
  refine { h with
    params := hparams.trans h.params
    sound := hsound
    avail := ?_
    host := HostOk.mono (s := s) h.host rfl (Nat.le_of_eq hsame') hparams fun head w hpc ↦ hsame _ (hwalking head w hpc)
    used := ?_
    getter := ?_
    returned := ?_
    broken := ?_ }
  · rw [hsame'] at havail
    exact havail
  · refine ⟨hmem, hhost, ?_, ?_, hpublished, ?_⟩
    · rw [hlength]
      exact (congrArg (fun i ↦ (i + 1) % 2 ^ 16) hdriver).trans (Nat.mod_add_mod ..)
    · rw [hlength]
      exact hlt
    · rw [hlength]
      refine hslots.shift (Nat.le_succ _) (Nat.succ_le_of_lt (Nat.lt_add_of_pos_right hpos)) fun q x hq hlt hx d hd ↦ ?_
      have hinside' : q + p.num < s.completed.length := (List.getElem?_eq_some_iff.mp hd).1
      omega
  · rintro idx ⟨⟩
  · rw [hlength, List.take_add_one, hget, List.map_append, ← h.returned]
    rfl
  · intro hbroken'
    exact absurd (hbroken.symm.trans hbroken') (by decide)

theorem getBuf_null {idx : ℕ} (hnull : s.driver.broken = true ∨ s.driver.lastUsedIdx = idx) :
    s.getBuf idx = { s with pc := .idle } := by
  have hgetBuf : vcaVirtqueueGetBuf s.driver ⟨idx, s.used.ring⟩ = some (none, s.driver) := by
    rw [vcaVirtqueueGetBuf]
    dsimp only
    rcases hnull with hbroken | hidx
    · rw [if_pos hbroken]
    · have hmore : moreUsed s.driver ⟨idx, s.used.ring⟩ = false := decide_eq_false (not_not_intro hidx)
      rw [hmore, Bool.not_false, if_pos rfl, ite_self]
  rw [Sys.getBuf, hgetBuf]

theorem Inv.getBuf (h : Inv p riov wiov buf s) (hsize : RingSize p.num) {idx : ℕ} (hpc : s.pc = .seen idx) :
    Inv p riov wiov buf (s.getBuf idx) := by
  by_cases hnull : s.driver.broken = true ∨ s.driver.lastUsedIdx = idx
  · rw [getBuf_null hnull]
    exact h.idle hpc
  · obtain ⟨hbroken, hidx⟩ := not_or.mp hnull
    exact h.back hsize hpc (Bool.eq_false_of_not_eq_true hbroken) hidx

/-! ## Steps of the host -/

theorem Inv.readAvail (h : Inv p riov wiov buf s) (hpc : s.host = .idle) :
    Inv p riov wiov buf { s with host := .seen s.availIdx } := by
  have htaken : s.taken = s.fetched.length := by rw [Sys.taken, hpc]
  obtain ⟨hdriver, hmem, hhost, htakenle, hpublished, hslots⟩ := h.avail
  rw [htaken] at hhost htakenle hslots
  exact { h with
    avail := ⟨hdriver, hmem, hhost, htakenle, hpublished, hslots⟩
    host := ⟨s.published, hmem, htakenle, Nat.le_refl _⟩ }

theorem Inv.getHead (h : Inv p riov wiov buf s) (hsize : RingSize p.num) {idx : ℕ} (hpc : s.host = .seen idx) :
    Inv p riov wiov buf (s.getHead riov wiov idx) := by
  have hhostOk := h.host
  rw [hpc] at hhostOk
  obtain ⟨t, rfl, hfetchedle, ht⟩ := hhostOk
  have htaken : s.taken = s.fetched.length := by rw [Sys.taken, hpc]
  obtain ⟨hdriver, hmem, hhost, -, hpublished, hslots⟩ := h.avail
  rw [htaken] at hhost hslots
  obtain ⟨hlive, hroom, hreturned⟩ := h.room
  have hpositions := h.length_positions
  have hnum : s.driver.num = p.num := congrArg Params.num h.params
  have hlt16 := hsize.lt
  rw [Sys.getHead, vringhGetHead]
  dsimp only
  by_cases hempty : s.vrh.lastAvailIdx = t % 2 ^ 16
  · rw [if_pos hempty]
    exact { h with
      avail := ⟨hdriver, hmem, hhost, hfetchedle.trans ht, hpublished, hslots⟩
      host := trivial }
  · have hlt : s.fetched.length < t := by
      refine Nat.lt_of_le_of_ne hfetchedle ?_
      rintro rfl
      exact hempty hhost
    have hinside : s.fetched.length < s.added.length := by omega
    have hmem' : s.fetched.length ∈ s.live :=
      List.mem_append_left _ (List.mem_range'_1.mpr ⟨Nat.le_refl _, by omega⟩)
    have hpos : 0 < p.num := (List.length_pos_of_mem hmem').trans_le hlive
    have hhead : s.driver.availRing (s.vrh.lastAvailIdx &&& (s.vrh.num - 1)) = (buf s.fetched.length).head := by
      rw [hhost, h.hostNum, hsize.mask]
      exact hslots _ (Nat.le_refl _) (Nat.lt_add_of_pos_right hpos) hinside
    have hids : ∀ a ∈ (buf s.fetched.length).ids, a < s.driver.num := by
      obtain ⟨l, r, hlr⟩ := List.append_of_mem (List.mem_map_of_mem (f := buf) hmem')
      exact ((h.sound.perm (hlr ▸ List.perm_middle)).disjoint).2.1
    obtain ⟨hne, hchain⟩ := h.sound.held _ (List.mem_map_of_mem hmem')
    obtain ⟨hgiven, hlen⟩ := h.given _ hinside
    rw [if_neg hempty, hhead, if_neg (by rw [h.hostNum, ← hnum]; exact Nat.not_le.mpr (hids _ List.mem_cons_self))]
    dsimp only
    refine { h with
      avail := ⟨hdriver, hmem, ?_, hlt.trans_le ht, hpublished, ?_⟩
      host := ⟨rfl, ?_⟩ }
    · exact (congrArg (fun i ↦ (i + 1) % 2 ^ 16) hhost).trans (Nat.mod_add_mod ..)
    · refine hslots.shift (Nat.le_succ _) (Nat.succ_le_of_lt (Nat.lt_add_of_pos_right hpos)) fun q x hq _ _ hd ↦ ?_
      omega
    · have hstart := onWay_start hchain hne hids (hnum ▸ hlen) hgiven
      rw [h.hostNum, ← hnum]
      exact hstart

theorem Inv.fetch (h : Inv p riov wiov buf s) {head : ℕ} {w : Walk} (hpc : s.host = .walking head w) :
    Inv p riov wiov buf { s with
      host := .idle
      fetched := s.fetched ++ [fetchedOf p.dmaMap riov wiov (buf s.fetched.length)]
      holding := s.holding ++ [s.fetched.length] } := by
  have hinside := h.live_lt (h.walking_mem hpc)
  have htaken : s.taken = s.fetched.length + 1 := by rw [Sys.taken, hpc]
  have havail := h.avail
  rw [htaken] at havail
  set s' : Sys τ := { s with
    host := .idle
    fetched := s.fetched ++ [fetchedOf p.dmaMap riov wiov (buf s.fetched.length)]
    holding := s.holding ++ [s.fetched.length] } with hs'
  have hlength : s'.fetched.length = s.fetched.length + 1 := List.length_append
  have hperm : s'.live.Perm s.live := by
    obtain ⟨k, hk⟩ : ∃ k, s.added.length - s.fetched.length = k + 1 := ⟨_, (Nat.succ_pred_eq_of_pos (by omega)).symm⟩
    have hk' : s'.added.length - s'.fetched.length = k := by
      rw [hlength]
      exact Nat.sub_succ .. ▸ hk ▸ rfl
    rw [Sys.live, Sys.live, hk, hk', hlength, List.range'_succ, hs']
    dsimp only
    rw [List.append_assoc, List.singleton_append]
    exact (List.perm_middle.append_left _).trans List.perm_middle
  refine { h with
    sound := h.sound.perm (hperm.map buf).symm
    positions := ?_
    avail := ?_
    host := trivial
    fetched := ?_ }
  · rw [hlength, List.range_succ, hs']
    dsimp only
    rw [List.append_assoc, List.singleton_append]
    exact List.perm_middle.trans ((h.positions.cons _).trans (List.perm_append_singleton ..).symm)
  · rw [Sys.taken, hlength]
    exact havail
  · rw [hlength, List.range_succ, List.map_append, ← h.fetched]
    rfl

theorem Inv.walk (h : Inv p riov wiov buf s) (hsize : RingSize p.num) {head : ℕ} {w : Walk}
    (hpc : s.host = .walking head w) : Inv p riov wiov buf (s.walk head w) := by
  have hhostOk := h.host
  rw [hpc] at hhostOk
  obtain ⟨rfl, hway⟩ := hhostOk
  have hmem := h.walking_mem hpc
  have hnum : s.driver.num = p.num := congrArg Params.num h.params
  have hdma : s.driver.dmaMap = p.dmaMap := congrArg Params.dmaMap h.params
  have hnum16 : s.driver.num ≤ 0xffff := hnum ▸ Nat.le_of_lt_succ hsize.lt
  have havail := h.avail
  obtain ⟨hne, hchain⟩ := h.sound.held _ (List.mem_map_of_mem hmem)
  obtain ⟨hgiven, hlen⟩ := h.given _ (h.live_lt hmem)
  rw [Sys.walk, h.hostNum, ← hnum]
  rcases hway.round hchain hne (hnum ▸ hlen) hnum16 rfl hgiven with ⟨w', hround, hway'⟩ | ⟨w', hround, hgrown⟩
  · rw [hround]
    rw [Sys.taken, hpc] at havail
    exact { h with
      avail := havail
      host := ⟨rfl, hway'⟩ }
  · have hfetch := h.fetch hpc
    obtain ⟨hriov, hwiov⟩ := hgiven.filled _ _ hgrown
    rw [hround]
    dsimp only
    rw [hriov, hwiov, hdma]
    exact hfetch

theorem complete_ring (hsize : RingSize p.num) {vrh : Vringh} (used : UsedRing) (head len : ℕ) {k : ℕ}
    (hnum : vrh.num = p.num) (hidx : (vrh.lastUsedIdx + vrh.completed) % 2 ^ 16 = k % 2 ^ 16) :
    (vcaVringhCompleteKern vrh used head len).2.ring = update used.ring (slot p.num k) ⟨head, len⟩ ∧
      (vcaVringhCompleteKern vrh used head len).2.idx = (k + 1) % 2 ^ 16 := by
  have hoff : (vrh.lastUsedIdx + vrh.completed) % 2 ^ 16 % vrh.num = slot p.num k := by
    rw [hidx, hnum, hsize.slot_mod]
  rw [vcaVringhCompleteKern, vringhComplete, hoff]
  dsimp only
  rw [List.length_singleton, if_neg (fun hwrap ↦ absurd hwrap.1 (Nat.lt_irrefl 1))]
  constructor
  · apply funext
    intro i
    rw [putUsed]
    split_ifs with hle
    · rcases Nat.eq_or_lt_of_le hle with rfl | hlt
      · rw [Function.update_self, Nat.sub_self]
        rfl
      · rw [Function.update_of_ne (Nat.ne_of_gt hlt), List.getElem?_eq_none (Nat.sub_pos_of_lt hlt)]
        rfl
    · rw [Function.update_of_ne (by rintro rfl; exact hle (Nat.le_refl _))]
  · rw [hidx, Nat.mod_add_mod]

theorem perm_erase_append {i : ℕ} {l : List ℕ} (hi : i ∈ l) (m : List ℕ) :
    (l.erase i ++ (m ++ [i])).Perm (l ++ m) := by
  rw [← List.append_assoc]
  exact (List.perm_append_singleton ..).trans ((List.perm_cons_erase hi).symm.append_right m)

theorem Inv.complete (h : Inv p riov wiov buf s) (hsize : RingSize p.num) {i len : ℕ} {f : Fetched}
    (hi : i ∈ s.holding) (hpending : s.pendingIdx = none) (hf : s.fetched[i]? = some f) :
    Inv p riov wiov buf (s.complete i f.head len) := by
  obtain ⟨hmem, hhost, hdriver, hreturned, hpublished, hslots⟩ := h.used
  obtain ⟨hlive, hroom, hle⟩ := h.room
  have hfetched := h.fetched_le
  have hpositions := h.length_positions
  have hhead : f.head = (buf i).head := by
    rw [h.fetched, List.getElem?_map, List.getElem?_range (h.positions.mem_iff.mp (List.mem_append_left _ hi) |>
      List.mem_range.mp)] at hf
    exact (Option.some_inj.mp hf) ▸ rfl
  have hholding := List.length_pos_of_mem hi
  have hpub : s.usedPublished = s.completed.length := by
    rw [Sys.usedPublished, if_pos hpending, Nat.sub_zero]
  obtain ⟨hring, hidx⟩ := complete_ring hsize s.used f.head len h.hostNum hhost
  set s' : Sys τ := s.complete i f.head len with hs'
  have hlength : s'.completed.length = s.completed.length + 1 := List.length_append
  have hpub' : s'.usedPublished = s.completed.length := by
    rw [Sys.usedPublished, hlength]
    rfl
  have hperm : s'.live.Perm s.live := by
    rw [Sys.live, hs', Sys.complete]
    dsimp only
    rw [List.drop_append_of_le_length hle, List.map_append]
    exact (perm_erase_append hi _).append_left _
  have hget : ∀ {q : ℕ} {c : ℕ × ℕ}, q ≠ s.completed.length → s'.completed[q]? = some c →
      s.completed[q]? = some c := by
    intro q c hq hc
    have hlt : q < s'.completed.length := (List.getElem?_eq_some_iff.mp hc).1
    rwa [hs', Sys.complete, List.getElem?_append_left (by omega)] at hc
  refine { h with
    sound := h.sound.perm (hperm.map buf).symm
    positions := ?_
    avail := h.avail
    used := ⟨?_, ?_, hdriver, ?_, ?_, ?_⟩
    pending := ?_
    getter := ?_
    returned := ?_ }
  · rw [hs', Sys.complete, List.map_append]
    exact (perm_erase_append hi _).trans h.positions
  · rw [hpub', ← hpub]
    exact hmem
  · have hnext : (s.vrh.lastUsedIdx + (s.vrh.completed + 1)) % 2 ^ 16 = (s.completed.length + 1) % 2 ^ 16 := by
      rw [← Nat.add_assoc, ← Nat.mod_add_mod, hhost, Nat.mod_add_mod]
    rw [hlength]
    exact hnext
  · rw [hpub', ← hpub]
    exact hreturned
  · rw [hpub', hlength]
    exact Nat.le_succ _
  · have hwindow : Window p.num (update s.used.ring (slot p.num s.completed.length) ⟨f.head, len⟩)
        (fun q x ↦ ∀ c, s'.completed[q]? = some c → x = ⟨(buf c.1).head, c.2⟩) s.returned.length := by
      refine hslots.update hle (show s.completed.length < s.returned.length + p.num by omega) ?_
        fun q x hq hx c hc ↦ hx c (hget hq hc)
      intro c hc
      rw [hs', Sys.complete, List.getElem?_concat_length, Option.some_inj] at hc
      rw [hhead, ← hc]
    rw [← hring] at hwindow
    exact hwindow
  · rintro idx ⟨⟩
    rw [hlength]
    exact ⟨hidx, Nat.succ_pos _⟩
  · intro idx hpc
    rw [hpub', ← hpub]
    exact h.getter idx hpc
  · have htake : s'.completed.take s.returned.length = s.completed.take s.returned.length :=
      List.take_append_of_le_length hle
    exact h.returned.trans (htake ▸ rfl)

theorem Inv.publishUsed (h : Inv p riov wiov buf s) {idx : ℕ} (hpending : s.pendingIdx = some idx) :
    Inv p riov wiov buf { s with used := { s.used with idx := idx }, pendingIdx := none } := by
  obtain ⟨hmem, hhost, hdriver, hreturned, hpublished, hslots⟩ := h.used
  refine { h with
    used := ⟨(h.pending idx hpending).1, hhost, hdriver, hreturned.trans hpublished, Nat.le_refl _, hslots⟩
    pending := ?_
    getter := ?_ }
  · rintro idx' ⟨⟩
  · intro idx' hpc
    obtain ⟨t, hidx', hle, ht⟩ := h.getter idx' hpc
    exact ⟨t, hidx', hle, ht.trans hpublished⟩

theorem Inv.needNotify (h : Inv p riov wiov buf s) (availFlags usedEvent : ℕ) :
    Inv p riov wiov buf { s with vrh := (vringhNeedNotify s.vrh availFlags usedEvent).2 } := by
  obtain ⟨hmem, hhost, hdriver, hreturned, hpublished, hslots⟩ := h.used
  rw [vringhNeedNotify]
  split_ifs
  · exact h
  · refine { h with
      hostNum := h.hostNum
      avail := h.avail
      host := HostOk.mono (s := s) h.host rfl (Nat.le_refl _) rfl fun _ _ _ ↦ untouched_refl _ _
      used := ⟨hmem, ?_, hdriver, hreturned, hpublished, hslots⟩ }
    rw [Nat.add_zero, Nat.mod_mod]
    exact hhost

/-! ## Runs -/

/-- There are buffers for which the invariant holds. -/
def Traced (p : Params) (riov wiov : Option Kiov) (s : Sys τ) : Prop := ∃ buf, Inv p riov wiov buf s

theorem Inv.step (h : Inv p riov wiov buf s) (hsize : RingSize p.num) {l : Label τ} (hallowed : l.Allowed riov wiov s)
    (hstep : step riov wiov s l = some s') : Traced p riov wiov s' := by
  cases l with
  | addSgs outSgs inSgs data env =>
    obtain ⟨hpc, hs'⟩ := Option.ite_none_right_eq_some.mp hstep
    cases hs'
    exact h.addSgs hsize hpc hallowed
  | publishAvail =>
    obtain ⟨-, hs'⟩ := Option.ite_none_right_eq_some.mp hstep
    cases hs'
    exact ⟨buf, h.publishAvail⟩
  | kick notifyOk availEvent =>
    obtain ⟨-, hs'⟩ := Option.ite_none_right_eq_some.mp hstep
    cases hs'
    obtain ⟨hrings, hbroken⟩ := sameRings_kick s.driver notifyOk availEvent s.used.flags
    refine ⟨buf, h.driver_books _ hrings (vcaVirtqueueKick_toBooks ..) fun hvq ↦ ?_⟩
    cases notifyOk with
    | false => exact Bool.or_true _
    | true =>
      rw [hbroken rfl] at hvq
      rw [h.broken hvq]
      rfl
  | disableCb =>
    cases hstep
    exact ⟨buf, h.driver_books (vcaVirtqueueDisableCb s.driver) ⟨rfl, rfl, rfl⟩ rfl h.broken⟩
  | enableCbPrepare =>
    obtain ⟨-, hs'⟩ := Option.ite_none_right_eq_some.mp hstep
    cases hs'
    exact ⟨buf, h.driver_books (vcaVirtqueueEnableCbPrepare s.driver).2 ⟨rfl, rfl, rfl⟩ rfl h.broken⟩
  | enableCbDelayed =>
    obtain ⟨-, hs'⟩ := Option.ite_none_right_eq_some.mp hstep
    cases hs'
    exact ⟨buf, h.driver_books (vcaVirtqueueEnableCbDelayed s.driver s.used.idx).2 ⟨rfl, rfl, rfl⟩ rfl h.broken⟩
  | readUsed =>
    obtain ⟨hpc, hs'⟩ := Option.ite_none_right_eq_some.mp hstep
    cases hs'
    exact ⟨buf, h.readUsed hpc⟩
  | getBuf =>
    obtain ⟨idx, hpc, rfl⟩ := step_getBuf.mp hstep
    exact ⟨buf, h.getBuf hsize hpc⟩
  | readAvail =>
    obtain ⟨hpc, rfl⟩ := step_readAvail.mp hstep
    exact ⟨buf, h.readAvail hpc⟩
  | getHead =>
    obtain ⟨idx, hpc, rfl⟩ := step_getHead.mp hstep
    exact ⟨buf, h.getHead hsize hpc⟩
  | walk =>
    obtain ⟨head, w, hpc, rfl⟩ := step_walk.mp hstep
    exact ⟨buf, h.walk hsize hpc⟩
  | complete i len =>
    obtain ⟨⟨hi, hpending⟩, hs'⟩ := Option.ite_none_right_eq_some.mp hstep
    obtain ⟨f, hf, rfl⟩ := Option.map_eq_some_iff.mp hs'
    exact ⟨buf, h.complete hsize hi hpending hf⟩
  | publishUsed =>
    obtain ⟨idx, hpending, rfl⟩ := Option.map_eq_some_iff.mp hstep
    exact ⟨buf, h.publishUsed hpending⟩
  | needNotify =>
    obtain ⟨-, hs'⟩ := Option.ite_none_right_eq_some.mp hstep
    cases hs'
    exact ⟨buf, h.needNotify ..⟩

theorem ringSize_of_ne {n : ℕ} (h : ¬(n = 0 ∨ 0xffff < n ∨ n &&& (n - 1) ≠ 0)) : RingSize n := by
  obtain ⟨hpos, hle, hmask⟩ : n ≠ 0 ∧ n ≤ 0xffff ∧ n &&& (n - 1) = 0 := by
    refine ⟨fun hz ↦ h (Or.inl hz), Nat.not_lt.mp fun hlt ↦ h (Or.inr (Or.inl hlt)), ?_⟩
    exact Decidable.of_not_not fun hmask ↦ h (Or.inr (Or.inr hmask))
  obtain ⟨k, rfl⟩ := (Nat.and_sub_one_eq_zero_iff_isPowerOfTwo hpos).mp hmask
  refine ⟨k, Nat.lt_succ_iff.mp ?_, rfl⟩
  exact (Nat.pow_lt_pow_iff_right (by decide)).mp (Nat.lt_succ_of_le hle : 2 ^ k < 2 ^ 16)

theorem inv_init {n : ℕ} {callback indirect event dmaMap : Bool}
    (hinit : init n callback indirect event dmaMap = some s) (riov wiov : Option Kiov) (buf : ℕ → Out τ) :
    RingSize n ∧ Inv ⟨n, indirect, dmaMap⟩ riov wiov buf s := by
  rw [init] at hinit
  cases hvq : (vcaVringNewVirtqueue n callback indirect event dmaMap : Option (VringVirtqueue τ)) with
  | none =>
    rw [hvq] at hinit
    cases hinit
  | some vq =>
    have hsound := sound_vcaVringNewVirtqueue hvq
    rw [hvq, vcaVringhInitKern] at hinit
    rw [vcaVringNewVirtqueue] at hvq
    obtain ⟨-, hvq⟩ := Option.ite_none_left_eq_some.mp hvq
    by_cases hbad : n = 0 ∨ 0xffff < n ∨ n &&& (n - 1) ≠ 0
    · rw [if_pos hbad] at hinit
      cases hinit
    · rw [if_neg hbad] at hinit
      cases hinit
      cases hvq
      refine ⟨ringSize_of_ne hbad, ?_⟩
      exact
        { params := rfl
          hostNum := rfl
          added := rfl
          given := fun i hi ↦ absurd hi (Nat.not_lt_zero i)
          sound := hsound
          positions := List.Perm.nil
          avail := ⟨rfl, rfl, rfl, Nat.le_refl _, Nat.le_refl _, fun i _ _ hi ↦ absurd hi (Nat.not_lt_zero i)⟩
          host := trivial
          fetched := rfl
          used := ⟨rfl, rfl, rfl, Nat.le_refl _, Nat.le_refl _, fun i _ _ c hc ↦ absurd hc (by simp)⟩
          pending := fun idx hidx ↦ absurd hidx (by simp)
          getter := fun idx hidx ↦ absurd hidx (by simp)
          returned := rfl
          running := rfl
          broken := fun hbroken ↦ absurd hbroken Bool.false_ne_true }

/-- Indices that are equal on sixteen bits, of counts that are close together. -/
theorem eq_of_mod_eq {a b : ℕ} (hle : a ≤ b) (hroom : b < a + 2 ^ 16) (h : a % 2 ^ 16 = b % 2 ^ 16) : a = b := by
  omega

/-- What came back was completed, what was completed was added, and there is room for what is out. -/
theorem Inv.counts (h : Inv p riov wiov buf s) : s.returned.length ≤ s.usedPublished ∧
    s.usedPublished ≤ s.completed.length ∧ s.completed.length ≤ s.added.length ∧
      s.added.length ≤ s.returned.length + p.num := by
  obtain ⟨hlive, hroom, -⟩ := h.room
  have hfetched := h.fetched_le
  have hpositions := h.length_positions
  refine ⟨h.used.returned_le, h.used.published_le, by omega, by omega⟩

/-- The driver is behind if the indices differ. -/
theorem Inv.lastUsedIdx_eq_iff (h : Inv p riov wiov buf s) (hsize : RingSize p.num) :
    s.driver.lastUsedIdx = s.used.idx ↔ s.returned.length = s.usedPublished := by
  obtain ⟨hreturned, hpublished, hcompleted, hroom⟩ := h.counts
  have hlt := hsize.lt
  rw [h.used.driverIdx_eq, h.used.memIdx_eq]
  constructor
  · exact eq_of_mod_eq hreturned (by omega)
  · exact congrArg (· % 2 ^ 16)

/-- What the host fetched and what the driver got back, over against what was added and completed. -/
structure Delivered (num : ℕ) (dmaMap : Bool) (riov wiov : Option Kiov) (s : Sys τ) : Prop where
  running : s.stopped = false
  broken : s.driver.broken = true → s.notifyFailed = true
  fetched : (s.fetched.map fun f ↦ (f.riov, f.wiov)) <+: s.added.map fun b ↦
    (riov.map fun _ ↦ kvecs dmaMap false b.2, wiov.map fun _ ↦ kvecs dmaMap true b.2)
  positions : (s.holding ++ s.completed.map Prod.fst).Perm (List.range s.fetched.length)
  returned : s.returned.map some <+: s.completed.map fun c ↦ s.added[c.1]?.map fun b ↦ (b.1, c.2)
  room : s.added.length ≤ s.returned.length + num
  availEmpty : s.host = .idle → s.pc ≠ .filled → s.vrh.lastAvailIdx = s.availIdx →
    s.fetched.length = s.added.length
  usedEmpty : s.pendingIdx = none → s.driver.lastUsedIdx = s.used.idx → s.returned.length = s.completed.length

theorem Inv.delivered {num : ℕ} {indirect dmaMap : Bool} (h : Inv ⟨num, indirect, dmaMap⟩ riov wiov buf s)
    (hsize : RingSize num) : Delivered num dmaMap riov wiov s := by
  obtain ⟨hlive, hroom, hreturned⟩ := h.room
  have hfetched := h.fetched_le
  have hpositions := h.length_positions
  have hlt := hsize.lt
  replace hlive : s.live.length ≤ num := hlive
  refine ⟨h.running, h.broken, ?_, h.positions, ?_, ?_, ?_, ?_⟩
  · rw [h.fetched, h.added, List.map_map, List.map_map, ← Nat.min_eq_left hfetched, ← List.take_range, List.map_take]
    exact List.take_prefix ..
  · rw [h.returned, List.map_map, List.map_take]
    have hcongr : s.completed.map (fun c ↦ s.added[c.1]?.map fun b ↦ (b.1, c.2)) =
        s.completed.map (some ∘ fun c ↦ ((buf c.1).token, c.2)) := by
      refine List.map_congr_left fun c hc ↦ ?_
      rw [h.added, List.getElem?_map, List.getElem?_range ((h.completed_lt hc).trans_le hfetched)]
      rfl
    rw [hcongr]
    exact List.take_prefix ..
  · omega
  · intro hhost hpc hempty
    have htaken : s.taken = s.fetched.length := by rw [Sys.taken, hhost]
    have hpublished : s.published = s.added.length := by rw [Sys.published, if_neg hpc, Nat.sub_zero]
    have havail := h.avail
    rw [htaken, hpublished] at havail
    exact eq_of_mod_eq hfetched (by omega) (havail.hostIdx_eq.symm.trans (hempty.trans havail.memIdx_eq))
  · intro hpending hempty
    have hpublished : s.usedPublished = s.completed.length := by rw [Sys.usedPublished, if_pos hpending, Nat.sub_zero]
    exact ((h.lastUsedIdx_eq_iff hsize).mp hempty).trans hpublished

/-- In every run of the driver and the host, however their steps and the writes to the rings come in between, the host
reads the buffers that were added, one after the other and with their ranges, and the driver gets back those that the
host completed, one after the other and with their lengths. -/
theorem delivered_run [Inhabited τ] {num : ℕ} {callback indirect event dmaMap : Bool} {ls : List (Label τ)} {t : Sys τ}
    (hinit : init num callback indirect event dmaMap = some s) (hrun : exec (step riov wiov) s ls = some t)
    (hallowed : Along (fun s l _ ↦ l.Allowed riov wiov s) (step riov wiov) s ls) :
    Delivered num dmaMap riov wiov t := by
  obtain ⟨hsize, hinv⟩ := inv_init hinit riov wiov fun _ ↦ ⟨default, [], 0, [], none⟩
  have htraced : Traced ⟨num, indirect, dmaMap⟩ riov wiov s := ⟨_, hinv⟩
  obtain ⟨buf, h⟩ : Traced ⟨num, indirect, dmaMap⟩ riov wiov t := by
    refine exec_invariant ?_ hallowed htraced hrun
    rintro s l s' ⟨buf, h⟩ hl hstep
    exact h.step hsize hl hstep
  exact h.delivered hsize

/-- Two buffers, one of them in an indirect table. The host reads the first one while the second one is added, and
completes the second one before the first one. -/
def sampleRun : List (Label ℕ) :=
  [.addSgs [[⟨4096, 0, 10⟩, ⟨8192, 0, 20⟩]] [] 7 { AddEnv.plain with table := some (65536, fun _ ↦ ⟨0, 0, 0, 0⟩) },
    .publishAvail, .kick true 0, .readAvail, .getHead, .walk, .addSgs [[⟨12288, 0, 30⟩]] [] 8 .plain, .walk,
    .publishAvail, .walk, .readAvail, .getHead, .walk, .complete 1 0, .publishUsed, .complete 0 5, .readUsed, .getBuf,
    .publishUsed, .needNotify, .readUsed, .getBuf]

theorem delivered_sampleRun : ∃ s t : Sys ℕ, init 4 true true false false = some s ∧
    exec (step (some ⟨[], 0, 0, 0, false⟩) none) s sampleRun = some t ∧ t.returned = [(8, 0), (7, 5)] ∧
      t.fetched.map Fetched.riov = [some [⟨4096, 10⟩, ⟨8192, 20⟩], some [⟨12288, 30⟩]] ∧
        Delivered 4 false (some ⟨[], 0, 0, 0, false⟩) none t :=
  ⟨_, _, rfl, rfl, rfl, rfl, @delivered_run ℕ (some ⟨[], 0, 0, 0, false⟩) none _ _ 4 true true false false sampleRun _
    rfl rfl (of_decide_eq_true rfl)⟩

end Vcass.Virtio.Transport
