import Vcass.Virtio.FlowControl

/-!
# No packet is dropped for want of descriptors

`start_xmit` stops the queue as long as there are fewer than `2 + MAX_SKB_FRAGS` free descriptors, and says of an error
of `vca_virtqueue_add_outbuf` that it should not happen. The queue is woken for a buffer that was completed, which may
have been freed by then: `skb_xmit_done` runs beside `start_xmit`, so the queue may be stopped behind the last look at
the used ring and be woken all the same. Then nothing is free that was not free when the queue was stopped.

This happens once, and not again before another buffer is completed. So if all packets take the same number of
descriptors, and two of them fit into what is kept free, there is always room for the next one. `owed` counts what is
still out, with the completion for which the queue is still to be woken.
-/

namespace Vcass.Virtio.Transmit

open Conc Virtqueue HostRing Transport

variable {τ : Type} {riov wiov : Option Kiov} {s s' : SendQueue τ} {r r' : Sys τ} {p : Params} {buf : ℕ → Out τ}
  {d num : ℕ}

/-! ## Free descriptors -/

theorem length_flatMap_of_eq {α β : Type*} {l : List α} {f : α → List β} (h : ∀ a ∈ l, (f a).length = d) :
    (l.flatMap f).length = d * l.length := by
  induction l with
  | nil => exact (Nat.mul_zero d).symm
  | cons a l ih =>
    rw [List.flatMap_cons, List.length_append, h a List.mem_cons_self, ih fun b hb ↦ h b (List.mem_cons_of_mem _ hb),
      List.length_cons, Nat.mul_succ, Nat.add_comm]

/-- All buffers have `d` entries. -/
def Uniform (d : ℕ) (r : Sys τ) : Prop := ∀ b ∈ r.added, b.2.length = d

/-- Without indirect tables each buffer that is out takes as many descriptors as it has entries. -/
theorem numFree_add (hinv : Inv p riov wiov buf r) (hind : p.indirect = false) (huniform : Uniform d r) :
    r.driver.numFree + d * (r.added.length - r.returned.length) = p.num := by
  obtain ⟨-, hroom, -⟩ := hinv.room
  obtain ⟨fl, j, -, hlen, hall⟩ := hinv.sound.free
  have hparams : r.driver.num = p.num := congrArg Params.num hinv.params
  have hindirect : r.driver.indirect = false := (congrArg Params.indirect hinv.params).trans hind
  have hids : ∀ o ∈ r.live.map buf, o.ids.length = d := by
    intro o ho
    have hdirect := (hinv.sound.held o ho).2.direct (hinv.sound.direct hindirect o ho)
    obtain ⟨i, hi, rfl⟩ := List.mem_map.mp ho
    have hmem : ((buf i).token, (buf i).entries) ∈ r.added := by
      rw [hinv.added]
      exact List.mem_map.mpr ⟨i, List.mem_range.mpr (hinv.live_lt hi), rfl⟩
    rw [hdirect.length_eq]
    exact huniform _ hmem
  have hall' := hall.length_eq
  rw [List.length_append, List.length_range, hlen, length_flatMap_of_eq hids, List.length_map, hparams] at hall'
  rw [← hall', ← hroom, Nat.add_sub_cancel]

/-- With enough descriptors there is nothing that keeps `virtqueue_add` from taking the buffer. -/
theorem addSgs_ok {vq : VringVirtqueue τ} {sg : List Sg} (data : τ) (env : AddEnv) (hbroken : vq.broken = false)
    (hind : vq.indirect = false) (hdma : vq.dmaMap = false) (hpos : 0 < sg.length) (hnum : sg.length ≤ vq.num)
    (hfree : sg.length ≤ vq.numFree) : (vcaVirtqueueAddSgs vq [sg] [] data env).1 = .ok := by
  have hentries : (entriesOf [sg] []).length = sg.length := by simp [entriesOf]
  rw [vcaVirtqueueAddSgs, virtqueueAdd, hentries, if_neg (by rw [hbroken]; exact Bool.false_ne_true),
    if_neg (by omega), if_neg (by rw [hind]; exact fun h ↦ Bool.false_ne_true h.1)]
  dsimp only
  rw [addTail, if_neg (Nat.not_lt.mpr hfree), if_neg (by rw [hdma]; exact fun h ↦ Bool.false_ne_true h.1), hdma]
  rfl

/-! ## What is owed -/

/-- A buffer was completed and the queue may still be woken for it. -/
def pipe : Notifier → ℕ
  | .unlocked => 0
  | .completing => 0
  | _ => 1

/-- The buffers that are not completed, and the one that may be seen twice. -/
def owed (s : SendQueue τ) : ℕ := s.ring.added.length - s.ring.usedPublished + pipe s.notifier

/-- There is room for a packet behind the next look at the used ring, and for one less if the queue is stopped or the
packet is out. -/
structure Roomy (d num : ℕ) (s : SendQueue τ) : Prop where
  uniform : Uniform d s.ring
  low : d * owed s + (2 + maxSkbFrags) ≤ num + 2 * d
  high : s.stopped = false → s.xmit ≠ .filled → s.xmit ≠ .sent → d * owed s + (2 + maxSkbFrags) ≤ num + d
  awake : s.xmit = .freeing ∨ s.xmit = .sending ∨ s.xmit = .filled ∨ s.xmit = .sent → s.stopped = false
  looking : ∀ idx, s.ring.pc = .seen idx → s.xmit = .freeing ∨ s.xmit = .refreeing
  seen : s.xmit = .freeing → ∀ idx, s.ring.pc = .seen idx → s.ring.driver.lastUsedIdx = idx →
    d * (s.ring.added.length - s.ring.returned.length) + (2 + maxSkbFrags) ≤ num + d
  sending : s.xmit = .sending →
    d * (s.ring.added.length - s.ring.returned.length) + (2 + maxSkbFrags) ≤ num + d
  kept : s.dropped = 0

theorem Roomy.host (h : Roomy d num s) {ring : Sys τ} {notifier : Notifier} (hadded : ring.added = s.ring.added)
    (hreturned : ring.returned = s.ring.returned) (hpc : ring.pc = s.ring.pc)
    (hlast : ring.driver.lastUsedIdx = s.ring.driver.lastUsedIdx)
    (howed : owed { s with ring := ring, notifier := notifier } ≤ owed s) :
    Roomy d num { s with ring := ring, notifier := notifier } := by
  have hmul := Nat.mul_le_mul_left d howed
  refine ⟨?_, ?_, fun hstopped hfilled hsent ↦ ?_, h.awake, ?_, ?_, ?_, h.kept⟩
  · rw [Uniform, hadded]
    exact h.uniform
  · exact (Nat.add_le_add_right hmul _).trans h.low
  · exact (Nat.add_le_add_right hmul _).trans (h.high hstopped hfilled hsent)
  · rw [hpc]
    exact h.looking
  · rw [hadded, hreturned, hpc, hlast]
    exact h.seen
  · rw [hadded, hreturned]
    exact h.sending

theorem Roomy.host_step (h : Roomy d num s) {l : Transport.Label τ} {ring : Sys τ} {notifier : Notifier}
    (hl : l.ofHost = true) (hstep : Transport.step riov wiov s.ring l = some ring)
    (howed : owed { s with ring := ring, notifier := notifier } ≤ owed s) :
    Roomy d num { s with ring := ring, notifier := notifier } := by
  obtain ⟨hadded, hreturned, hpc, -⟩ := added_eq_of_host hl hstep
  exact h.host hadded hreturned hpc (congrArg VringVirtqueue.lastUsedIdx (driver_eq_of_host hl hstep)) howed

theorem Roomy.wakeSubqueue (h : Roomy d num s) (hnotifier : s.notifier = .waking) :
    Roomy d num { s with stopped := false, notifier := .unlocked } := by
  have howed : owed s = owed { s with stopped := false, notifier := .unlocked } + 1 := by
    rw [owed, owed, hnotifier]
    rfl
  have hlow := h.low
  rw [howed, Nat.mul_succ] at hlow
  exact ⟨h.uniform, by omega, fun _ _ _ ↦ by omega, fun _ ↦ rfl, h.looking, h.seen, h.sending, h.kept⟩

theorem Roomy.go (h : Roomy d num s) {ring : Sys τ} {xmit : Xmit} (hadded : ring.added = s.ring.added)
    (hpublished : ring.usedPublished = s.ring.usedPublished) (hpc : ring.pc = .idle ∨ ring.pc = s.ring.pc)
    (hfrom : s.xmit ≠ .filled ∧ s.xmit ≠ .sent) (hlooking : ring.pc = s.ring.pc →
      s.xmit = .freeing ∨ s.xmit = .refreeing → xmit = .refreeing)
    (hto : xmit ≠ .freeing ∧ xmit ≠ .sending ∧ xmit ≠ .filled ∧ xmit ≠ .sent) :
    Roomy d num { s with ring := ring, xmit := xmit } := by
  obtain ⟨hfreeing, hsending, hfilled, hsent⟩ := hto
  have howed : owed { s with ring := ring, xmit := xmit } = owed s := by
    rw [owed, owed, hadded, hpublished]
  refine ⟨?_, ?_, fun hstopped _ _ ↦ ?_, ?_, fun idx hidx ↦ ?_, fun heq ↦ absurd heq hfreeing,
    fun heq ↦ absurd heq hsending, h.kept⟩
  · rw [Uniform, hadded]
    exact h.uniform
  · rw [howed]
    exact h.low
  · rw [howed]
    exact h.high hstopped hfrom.1 hfrom.2
  · rintro (heq | heq | heq | heq)
    · exact absurd heq hfreeing
    · exact absurd heq hsending
    · exact absurd heq hfilled
    · exact absurd heq hsent
  · rcases hpc with hidle | hsame
    · exact absurd (hidle.symm.trans hidx) (by rintro ⟨⟩)
    · exact Or.inr (hlooking hsame (h.looking idx (hsame.symm.trans hidx)))

/-! ## Steps -/

variable {ring : Sys τ}

theorem Roomy.fetch (h : Roomy d num s) {l : Transport.Label τ} (hl : l = .readAvail ∨ l = .getHead ∨ l = .walk)
    (hstep : Transport.step riov wiov s.ring l = some ring) : Roomy d num { s with ring := ring } := by
  have hhost : l.ofHost = true := by rcases hl with rfl | rfl | rfl <;> rfl
  have hback : l.givesBack = false := by rcases hl with rfl | rfl | rfl <;> rfl
  refine h.host_step hhost hstep (Nat.le_of_eq ?_)
  rw [owed, owed, Sys.usedPublished, Sys.usedPublished]
  dsimp only
  rw [(added_eq_of_host hhost hstep).1, (fetch_frame hl hstep).1, (used_eq_of_not hback hstep).2]

theorem Roomy.complete (h : Roomy d num s) {i len : ℕ} (hnotifier : s.notifier = .unlocked)
    (hstep : Transport.step riov wiov s.ring (.complete i len) = some ring) :
    Roomy d num { s with ring := ring, notifier := .completing } := by
  refine h.host_step rfl hstep ?_
  obtain ⟨⟨-, hpending⟩, hring⟩ := Option.ite_none_right_eq_some.mp hstep
  obtain ⟨f, -, rfl⟩ := Option.map_eq_some_iff.mp hring
  have hlength : (s.ring.complete i f.head len).completed.length = s.ring.completed.length + 1 := List.length_append
  rw [owed, owed, hnotifier, Sys.usedPublished, Sys.usedPublished, if_pos hpending]
  dsimp only
  rw [hlength]
  exact Nat.le_refl _

theorem Roomy.publishUsed (h : Roomy d num s) (hinv : Inv p riov wiov buf s.ring) (hnotifier : s.notifier = .completing)
    (hstep : Transport.step riov wiov s.ring .publishUsed = some ring) :
    Roomy d num { s with ring := ring, notifier := .completed } := by
  refine h.host_step rfl hstep ?_
  obtain ⟨idx, hpending, rfl⟩ := Option.map_eq_some_iff.mp hstep
  obtain ⟨-, hpos⟩ := hinv.pending idx hpending
  have hle := hinv.counts.2.2.1
  have hpublished : s.ring.usedPublished = s.ring.completed.length - 1 := by
    rw [Sys.usedPublished, if_neg (by rw [hpending]; rintro ⟨⟩)]
  rw [owed, owed, hnotifier, hpublished, Sys.usedPublished]
  dsimp only
  have hone : pipe .completed = 1 := rfl
  have hzero : pipe .completing = 0 := rfl
  rw [if_pos rfl, hone, hzero]
  omega

theorem Roomy.needNotify (h : Roomy d num s) (hnotifier : s.notifier = .completed)
    (hstep : Transport.step riov wiov s.ring .needNotify = some ring) : Roomy d num (s.needNotify ring) := by
  refine h.host_step rfl hstep ?_
  obtain ⟨-, hring⟩ := Option.ite_none_right_eq_some.mp hstep
  cases hring
  have hpipe : ∀ b : Bool, pipe (if b then .interrupting else .unlocked) ≤ 1 := by decide
  rw [owed, owed, hnotifier]
  exact Nat.add_le_add_left (hpipe _) _

theorem Roomy.interrupt (h : Roomy d num s) (hnotifier : s.notifier = .interrupting) : Roomy d num s.interrupt := by
  have howed : ∀ notifier, pipe notifier ≤ 1 → owed { s with notifier := notifier } ≤ owed s := by
    intro notifier hle
    rw [owed, owed, hnotifier]
    exact Nat.add_le_add_left hle _
  rw [SendQueue.interrupt]
  split_ifs
  · exact h.host rfl rfl rfl rfl (howed _ (by decide))
  · exact h.host rfl rfl rfl rfl (howed _ (by decide))
  · exact h.host rfl rfl rfl rfl (howed _ (by decide))

theorem Roomy.skbXmitDone (h : Roomy d num s) (hnotifier : s.notifier = .callback)
    (hstep : Transport.step riov wiov s.ring .disableCb = some ring) :
    Roomy d num { s with ring := ring, notifier := .waking } := by
  cases hstep
  refine h.host rfl rfl rfl rfl ?_
  rw [owed, owed, hnotifier]
  exact Nat.le_refl _

theorem Roomy.startXmit (h : Roomy d num s) (hxmit : s.xmit = .idle) (hawake : s.stopped = false) :
    Roomy d num { s with xmit := .freeing } := by
  refine ⟨h.uniform, h.low, fun hstopped _ _ ↦ h.high hstopped (by rw [hxmit]; decide) (by rw [hxmit]; decide),
    fun _ ↦ hawake, fun _ _ ↦ Or.inl rfl, fun _ idx hpc ↦ ?_, (by rintro ⟨⟩), h.kept⟩
  have hlooking := h.looking idx hpc
  rw [hxmit] at hlooking
  exact absurd hlooking (by decide)

theorem Roomy.readUsed (h : Roomy d num s) (hinv : Inv p riov wiov buf s.ring) (hsize : RingSize p.num)
    (hxmit : s.xmit = .freeing ∨ s.xmit = .refreeing) (hstep : Transport.step riov wiov s.ring .readUsed = some ring) :
    Roomy d num { s with ring := ring } := by
  obtain ⟨-, hring⟩ := Option.ite_none_right_eq_some.mp hstep
  cases hring
  refine ⟨h.uniform, h.low, h.high, h.awake, fun _ _ ↦ hxmit, fun hfreeing ↦ ?_, h.sending, h.kept⟩
  rintro idx ⟨⟩ hidx
  have hcaught := (hinv.lastUsedIdx_eq_iff hsize).mp hidx
  have hle : s.ring.added.length - s.ring.returned.length ≤ owed s := by
    rw [hcaught]
    exact Nat.le_add_right ..
  refine (Nat.add_le_add_right (Nat.mul_le_mul_left d hle) _).trans (h.high (h.awake (Or.inl hfreeing)) ?_ ?_)
  · rw [hfreeing]
    decide
  · rw [hfreeing]
    decide

theorem Roomy.getBuf (h : Roomy d num s) (hinv : Inv p riov wiov buf s.ring) (hsize : RingSize p.num)
    (hbroken : s.ring.driver.broken = false) (hxmit : s.xmit = .freeing ∨ s.xmit = .refreeing)
    (hstep : Transport.step riov wiov s.ring .getBuf = some ring) : Roomy d num (s.freed ring) := by
  obtain ⟨idx, hpc, rfl⟩ := step_getBuf.mp hstep
  rw [SendQueue.freed]
  by_cases hidx : s.ring.driver.lastUsedIdx = idx
  · rw [getBuf_null (Or.inr hidx), if_neg (Nat.lt_irrefl _)]
    rcases hxmit with hfreeing | hrefreeing
    · rw [if_pos hfreeing]
      exact ⟨h.uniform, h.low,
        fun hstopped _ _ ↦ h.high hstopped (by rw [hfreeing]; decide) (by rw [hfreeing]; decide),
        fun _ ↦ h.awake (Or.inl hfreeing), (by rintro idx ⟨⟩), (by rintro ⟨⟩), fun _ ↦ h.seen hfreeing idx hpc hidx,
        h.kept⟩
    · rw [if_neg (by rw [hrefreeing]; decide)]
      refine h.go rfl rfl (Or.inl rfl) (by rw [hrefreeing]; decide) (fun hsame ↦ ?_) (by decide)
      exact absurd (hsame.trans hpc) (by rintro ⟨⟩)
  · obtain ⟨c, books, -, -, -, -, -, -, heq⟩ := hinv.getBuf_eq hsize hpc hbroken hidx
    have hlength : (s.ring.getBuf idx).returned.length = s.ring.returned.length + 1 := by
      rw [heq]
      exact List.length_append
    rw [if_pos (by rw [hlength]; exact Nat.lt_succ_self _), heq]
    refine ⟨h.uniform, h.low, h.high, h.awake, (by rintro idx ⟨⟩), ?_, fun hsending ↦ ?_, h.kept⟩
    · rintro - idx ⟨⟩
    · exact absurd hxmit (by rw [show s.xmit = .sending from hsending]; decide)

theorem Roomy.addOutbuf (h : Roomy d p.num s) (hinv : Inv p riov wiov buf s.ring) (hind : p.indirect = false)
    (hdma : p.dmaMap = false) (hd : 2 * d ≤ 2 + maxSkbFrags) (hbroken : s.ring.driver.broken = false)
    (hxmit : s.xmit = .sending) {sg : List Sg} {data : τ} {env : AddEnv} (hsg : sg.length = d)
    (hallowed : (Transport.Label.addSgs [sg] [] data env).Allowed riov wiov s.ring)
    (hstep : Transport.step riov wiov s.ring (.addSgs [sg] [] data env) = some ring) :
    Roomy d p.num (s.added ring) := by
  obtain ⟨⟨hne, hlen, -⟩, -⟩ := hallowed
  have hentries : (entriesOf [sg] []).length = sg.length := by simp [entriesOf]
  have hpos : 0 < sg.length := hentries ▸ List.length_pos_of_ne_nil hne
  have hfree := numFree_add hinv hind h.uniform
  have hroom := h.sending hxmit
  have hok := addSgs_ok data env hbroken ((congrArg Params.indirect hinv.params).trans hind)
    ((congrArg Params.dmaMap hinv.params).trans hdma) hpos (hentries ▸ hlen) (by omega : sg.length ≤ _)
  obtain ⟨-, hring⟩ := Option.ite_none_right_eq_some.mp hstep
  cases hring
  rw [Sys.addSgs]
  dsimp only
  rcases hadd : vcaVirtqueueAddSgs s.ring.driver [sg] [] data env with ⟨r, vq⟩
  rw [hadd] at hok
  cases hok
  have hcounts := hinv.counts
  have hawake := h.awake (Or.inr (Or.inl hxmit))
  have hhigh := h.high hawake (by rw [hxmit]; decide) (by rw [hxmit]; decide)
  dsimp only
  rw [SendQueue.added, if_pos rfl]
  refine ⟨?_, ?_, fun _ hfilled ↦ absurd rfl hfilled, fun _ ↦ hawake, (by rintro idx ⟨⟩), (by rintro ⟨⟩),
    (by rintro ⟨⟩), h.kept⟩
  · intro b hb
    rcases List.mem_append.mp hb with hb | hb
    · exact h.uniform b hb
    · rw [List.mem_singleton.mp hb]
      exact hentries.trans hsg
  · have howed : owed { s with
        ring := { s.ring with
          driver := vq
          pc := .filled
          added := s.ring.added ++ [(data, entriesOf [sg] [])]
          notifyFailed := s.ring.notifyFailed || !env.notifyOk }
        xmit := .filled } = owed s + 1 := by
      rw [owed, owed, Sys.usedPublished]
      dsimp only
      rw [List.length_append, List.length_singleton]
      have hle : s.ring.usedPublished ≤ s.ring.added.length := hcounts.2.1.trans hcounts.2.2.1
      rw [Sys.usedPublished] at hle ⊢
      omega
    rw [howed, Nat.mul_succ]
    omega

theorem Roomy.publishAvail (h : Roomy d num s) (hxmit : s.xmit = .filled)
    (hstep : Transport.step riov wiov s.ring .publishAvail = some ring) :
    Roomy d num { s with ring := ring, xmit := .sent } := by
  obtain ⟨-, hring⟩ := Option.ite_none_right_eq_some.mp hstep
  cases hring
  exact ⟨h.uniform, h.low, fun _ _ hsent ↦ absurd rfl hsent, fun _ ↦ h.awake (Or.inr (Or.inr (Or.inl hxmit))),
    (by rintro idx ⟨⟩), (by rintro ⟨⟩), (by rintro ⟨⟩), h.kept⟩

/-- With many free descriptors there is room for a packet however late the queue is woken. -/
theorem high_of_numFree (hinv : Inv p riov wiov buf s.ring) (hind : p.indirect = false) (huniform : Uniform d s.ring)
    (hfree : 2 + maxSkbFrags ≤ s.ring.driver.numFree) : d * owed s + (2 + maxSkbFrags) ≤ p.num + d := by
  have hnum := numFree_add hinv hind huniform
  have hcounts := hinv.counts
  have hpipe : pipe s.notifier ≤ 1 := by cases s.notifier <;> decide
  have howed : owed s ≤ s.ring.added.length - s.ring.returned.length + 1 := by
    rw [owed]
    omega
  have hmul := Nat.mul_le_mul_left d howed
  rw [Nat.mul_succ] at hmul
  omega

theorem Roomy.stopSubqueue (h : Roomy d p.num s) (hinv : Inv p riov wiov buf s.ring) (hind : p.indirect = false)
    (hxmit : s.xmit = .sent) : Roomy d p.num s.stopSubqueue := by
  have hlooking : ∀ idx, s.ring.pc ≠ .seen idx := by
    intro idx hpc
    have hlooking := h.looking idx hpc
    rw [hxmit] at hlooking
    exact absurd hlooking (by decide)
  rw [SendQueue.stopSubqueue]
  split_ifs with hfree
  · refine ⟨h.uniform, h.low, (by rintro ⟨⟩), fun hor ↦ absurd hor (by simp), fun idx hpc ↦ absurd hpc (hlooking idx),
      (by rintro ⟨⟩), (by rintro ⟨⟩), h.kept⟩
  · refine ⟨h.uniform, h.low, fun _ _ _ ↦ ?_, fun hor ↦ absurd hor (by simp), fun idx hpc ↦ absurd hpc (hlooking idx),
      (by rintro ⟨⟩), (by rintro ⟨⟩), h.kept⟩
    exact high_of_numFree hinv hind h.uniform (Nat.not_lt.mp hfree)

theorem Roomy.startSubqueue (h : Roomy d p.num s) (hinv : Inv p riov wiov buf s.ring) (hind : p.indirect = false)
    (hxmit : s.xmit = .freed) : Roomy d p.num s.startSubqueue := by
  have hlooking : ∀ idx, s.ring.pc ≠ .seen idx := by
    intro idx hpc
    have hlooking := h.looking idx hpc
    rw [hxmit] at hlooking
    exact absurd hlooking (by decide)
  rw [SendQueue.startSubqueue]
  split_ifs with hfree
  · refine ⟨h.uniform, h.low, fun _ _ _ ↦ ?_, fun _ ↦ rfl, fun idx hpc ↦ absurd hpc (hlooking idx), (by rintro ⟨⟩),
      (by rintro ⟨⟩), h.kept⟩
    exact high_of_numFree hinv hind h.uniform hfree
  · exact h.go rfl rfl (Or.inr rfl) (by rw [hxmit]; decide) (fun _ hor ↦ absurd hor (by rw [hxmit]; decide)) (by decide)

/-! ## Runs -/

/-- A packet of `d` entries. -/
def Label.Packet (d : ℕ) : Label τ → Prop
  | .addOutbuf sg _ _ => sg.length = d
  | _ => True

instance (d : ℕ) (l : Label τ) : Decidable (l.Packet d) :=
  match l with
  | .addOutbuf sg _ _ => inferInstanceAs (Decidable (sg.length = d))
  | .startXmit => inferInstanceAs (Decidable True)
  | .readUsed => inferInstanceAs (Decidable True)
  | .getBuf => inferInstanceAs (Decidable True)
  | .publishAvail => inferInstanceAs (Decidable True)
  | .stopSubqueue => inferInstanceAs (Decidable True)
  | .enableCbDelayed => inferInstanceAs (Decidable True)
  | .testUsed => inferInstanceAs (Decidable True)
  | .startSubqueue => inferInstanceAs (Decidable True)
  | .disableCb => inferInstanceAs (Decidable True)
  | .kick .. => inferInstanceAs (Decidable True)
  | .readAvail => inferInstanceAs (Decidable True)
  | .getHead => inferInstanceAs (Decidable True)
  | .walk => inferInstanceAs (Decidable True)
  | .complete .. => inferInstanceAs (Decidable True)
  | .publishUsed => inferInstanceAs (Decidable True)
  | .needNotify => inferInstanceAs (Decidable True)
  | .interrupt => inferInstanceAs (Decidable True)
  | .skbXmitDone => inferInstanceAs (Decidable True)
  | .wakeSubqueue => inferInstanceAs (Decidable True)

/-- A notification that failed is not forgotten. -/
theorem notifyFailed_mono {l : Transport.Label τ} (hstep : Transport.step riov wiov r l = some r')
    (hnotify : r'.notifyFailed = false) : r.notifyFailed = false := by
  cases l with
  | addSgs outSgs inSgs data env =>
    obtain ⟨-, hring⟩ := Option.ite_none_right_eq_some.mp hstep
    cases hring
    rw [Sys.addSgs] at hnotify
    dsimp only at hnotify
    refine (Bool.or_eq_false_iff.mp (?_ : (r.notifyFailed || !env.notifyOk) = false)).1
    split at hnotify <;> exact hnotify
  | kick notifyOk availEvent =>
    obtain ⟨-, hring⟩ := Option.ite_none_right_eq_some.mp hstep
    cases hring
    exact (Bool.or_eq_false_iff.mp hnotify).1
  | getBuf =>
    obtain ⟨idx, -, rfl⟩ := step_getBuf.mp hstep
    rw [Sys.getBuf] at hnotify
    split at hnotify <;> exact hnotify
  | disableCb =>
    cases hstep
    exact hnotify
  | publishAvail =>
    obtain ⟨-, hring⟩ := Option.ite_none_right_eq_some.mp hstep
    cases hring
    exact hnotify
  | enableCbPrepare =>
    obtain ⟨-, hring⟩ := Option.ite_none_right_eq_some.mp hstep
    cases hring
    exact hnotify
  | enableCbDelayed =>
    obtain ⟨-, hring⟩ := Option.ite_none_right_eq_some.mp hstep
    cases hring
    exact hnotify
  | readUsed =>
    obtain ⟨-, hring⟩ := Option.ite_none_right_eq_some.mp hstep
    cases hring
    exact hnotify
  | readAvail => exact (added_eq_of_host rfl hstep).2.2.2 ▸ hnotify
  | getHead => exact (added_eq_of_host rfl hstep).2.2.2 ▸ hnotify
  | walk => exact (added_eq_of_host rfl hstep).2.2.2 ▸ hnotify
  | complete => exact (added_eq_of_host rfl hstep).2.2.2 ▸ hnotify
  | publishUsed => exact (added_eq_of_host rfl hstep).2.2.2 ▸ hnotify
  | needNotify => exact (added_eq_of_host rfl hstep).2.2.2 ▸ hnotify

/-- The ring, and the room in it unless a notification failed. -/
structure Unfailing (p : Params) (d : ℕ) (riov wiov : Option Kiov) (s : SendQueue τ) : Prop where
  flowing : Flowing p riov wiov s
  roomy : s.ring.notifyFailed = false → Roomy d p.num s

/-- What a queue is like on which no notification failed. -/
theorem Unfailing.good (h : Unfailing p d riov wiov s) (hnotify : s.ring.notifyFailed = false) :
    ∃ buf, Inv p riov wiov buf s.ring ∧ Roomy d p.num s ∧ s.ring.driver.broken = false := by
  obtain ⟨buf, hinv⟩ := h.flowing.traced
  refine ⟨buf, hinv, h.roomy hnotify, Bool.eq_false_of_not_eq_true fun hbroken ↦ ?_⟩
  exact Bool.false_ne_true (hnotify.symm.trans (hinv.broken hbroken))

theorem Roomy.step (h : Roomy d p.num s) (hinv : Inv p riov wiov buf s.ring) (hsize : RingSize p.num)
    (hind : p.indirect = false) (hdma : p.dmaMap = false) (hd : 2 * d ≤ 2 + maxSkbFrags)
    (hbroken : s.ring.driver.broken = false) {l : Label τ} (hl : l.Allowed riov wiov s) (hpacket : l.Packet d)
    (hstep : step riov wiov s l = some s') : Roomy d p.num s' := by
  cases l with
  | startXmit =>
    obtain ⟨⟨hxmit, hawake⟩, hs'⟩ := Option.ite_none_right_eq_some.mp hstep
    cases hs'
    exact h.startXmit hxmit hawake
  | readUsed =>
    obtain ⟨hxmit, hs'⟩ := Option.ite_none_right_eq_some.mp hstep
    obtain ⟨ring, hring, rfl⟩ := Option.map_eq_some_iff.mp hs'
    exact h.readUsed hinv hsize hxmit hring
  | getBuf =>
    obtain ⟨hxmit, hs'⟩ := Option.ite_none_right_eq_some.mp hstep
    obtain ⟨ring, hring, rfl⟩ := Option.map_eq_some_iff.mp hs'
    exact h.getBuf hinv hsize hbroken hxmit hring
  | addOutbuf sg data env =>
    obtain ⟨hxmit, hs'⟩ := Option.ite_none_right_eq_some.mp hstep
    obtain ⟨ring, hring, rfl⟩ := Option.map_eq_some_iff.mp hs'
    exact h.addOutbuf hinv hind hdma hd hbroken hxmit hpacket hl hring
  | publishAvail =>
    obtain ⟨hxmit, hs'⟩ := Option.ite_none_right_eq_some.mp hstep
    obtain ⟨ring, hring, rfl⟩ := Option.map_eq_some_iff.mp hs'
    exact h.publishAvail hxmit hring
  | stopSubqueue =>
    obtain ⟨hxmit, hs'⟩ := Option.ite_none_right_eq_some.mp hstep
    cases hs'
    exact h.stopSubqueue hinv hind hxmit
  | enableCbDelayed =>
    obtain ⟨hxmit, hs'⟩ := Option.ite_none_right_eq_some.mp hstep
    obtain ⟨ring, hring, rfl⟩ := Option.map_eq_some_iff.mp hs'
    obtain ⟨-, hring'⟩ := Option.ite_none_right_eq_some.mp hring
    cases hring'
    exact h.go rfl rfl (Or.inr rfl) (by rw [hxmit]; decide) (fun _ hor ↦ absurd hor (by rw [hxmit]; decide))
      (by decide)
  | testUsed =>
    obtain ⟨hxmit, hs'⟩ := Option.ite_none_right_eq_some.mp hstep
    cases hs'
    rw [SendQueue.testUsed]
    split_ifs
    · exact h.go rfl rfl (Or.inr rfl) (by rw [hxmit]; decide) (fun _ hor ↦ absurd hor (by rw [hxmit]; decide))
        (by decide)
    · exact h.go rfl rfl (Or.inr rfl) (by rw [hxmit]; decide) (fun _ _ ↦ rfl) (by decide)
  | startSubqueue =>
    obtain ⟨hxmit, hs'⟩ := Option.ite_none_right_eq_some.mp hstep
    cases hs'
    exact h.startSubqueue hinv hind hxmit
  | disableCb =>
    obtain ⟨hxmit, hs'⟩ := Option.ite_none_right_eq_some.mp hstep
    obtain ⟨ring, hring, rfl⟩ := Option.map_eq_some_iff.mp hs'
    cases hring
    exact h.go rfl rfl (Or.inr rfl) (by rw [hxmit]; decide) (fun _ hor ↦ absurd hor (by rw [hxmit]; decide))
      (by decide)
  | kick notifyOk availEvent =>
    obtain ⟨hxmit, hs'⟩ := Option.ite_none_right_eq_some.mp hstep
    obtain ⟨ring, hring, rfl⟩ := Option.map_eq_some_iff.mp hs'
    obtain ⟨-, hring'⟩ := Option.ite_none_right_eq_some.mp hring
    cases hring'
    exact h.go rfl rfl (Or.inr rfl) (by rw [hxmit]; decide) (fun _ hor ↦ absurd hor (by rw [hxmit]; decide))
      (by decide)
  | readAvail =>
    obtain ⟨ring, hring, rfl⟩ := Option.map_eq_some_iff.mp hstep
    exact h.fetch (Or.inl rfl) hring
  | getHead =>
    obtain ⟨ring, hring, rfl⟩ := Option.map_eq_some_iff.mp hstep
    exact h.fetch (Or.inr (Or.inl rfl)) hring
  | walk =>
    obtain ⟨ring, hring, rfl⟩ := Option.map_eq_some_iff.mp hstep
    exact h.fetch (Or.inr (Or.inr rfl)) hring
  | complete i len =>
    obtain ⟨hnotifier, hs'⟩ := Option.ite_none_right_eq_some.mp hstep
    obtain ⟨ring, hring, rfl⟩ := Option.map_eq_some_iff.mp hs'
    exact h.complete hnotifier hring
  | publishUsed =>
    obtain ⟨hnotifier, hs'⟩ := Option.ite_none_right_eq_some.mp hstep
    obtain ⟨ring, hring, rfl⟩ := Option.map_eq_some_iff.mp hs'
    exact h.publishUsed hinv hnotifier hring
  | needNotify =>
    obtain ⟨hnotifier, hs'⟩ := Option.ite_none_right_eq_some.mp hstep
    obtain ⟨ring, hring, rfl⟩ := Option.map_eq_some_iff.mp hs'
    exact h.needNotify hnotifier hring
  | interrupt =>
    obtain ⟨hnotifier, hs'⟩ := Option.ite_none_right_eq_some.mp hstep
    cases hs'
    exact h.interrupt hnotifier
  | skbXmitDone =>
    obtain ⟨hnotifier, hs'⟩ := Option.ite_none_right_eq_some.mp hstep
    obtain ⟨ring, hring, rfl⟩ := Option.map_eq_some_iff.mp hs'
    exact h.skbXmitDone hnotifier hring
  | wakeSubqueue =>
    obtain ⟨hnotifier, hs'⟩ := Option.ite_none_right_eq_some.mp hstep
    cases hs'
    exact h.wakeSubqueue hnotifier

theorem ring_step {l : Label τ} (hstep : step riov wiov s l = some s') :
    s'.ring = s.ring ∨ ∃ l', Transport.step riov wiov s.ring l' = some s'.ring := by
  cases l with
  | startXmit =>
    obtain ⟨-, hs'⟩ := Option.ite_none_right_eq_some.mp hstep
    cases hs'
    exact Or.inl rfl
  | readUsed =>
    obtain ⟨-, hs'⟩ := Option.ite_none_right_eq_some.mp hstep
    obtain ⟨ring, hring, rfl⟩ := Option.map_eq_some_iff.mp hs'
    exact Or.inr ⟨_, hring⟩
  | getBuf =>
    obtain ⟨-, hs'⟩ := Option.ite_none_right_eq_some.mp hstep
    obtain ⟨ring, hring, rfl⟩ := Option.map_eq_some_iff.mp hs'
    exact Or.inr ⟨_, hring⟩
  | addOutbuf sg data env =>
    obtain ⟨-, hs'⟩ := Option.ite_none_right_eq_some.mp hstep
    obtain ⟨ring, hring, rfl⟩ := Option.map_eq_some_iff.mp hs'
    rw [SendQueue.added]
    split_ifs <;> exact Or.inr ⟨_, hring⟩
  | publishAvail =>
    obtain ⟨-, hs'⟩ := Option.ite_none_right_eq_some.mp hstep
    obtain ⟨ring, hring, rfl⟩ := Option.map_eq_some_iff.mp hs'
    exact Or.inr ⟨_, hring⟩
  | stopSubqueue =>
    obtain ⟨-, hs'⟩ := Option.ite_none_right_eq_some.mp hstep
    cases hs'
    rw [SendQueue.stopSubqueue]
    split_ifs <;> exact Or.inl rfl
  | enableCbDelayed =>
    obtain ⟨-, hs'⟩ := Option.ite_none_right_eq_some.mp hstep
    obtain ⟨ring, hring, rfl⟩ := Option.map_eq_some_iff.mp hs'
    exact Or.inr ⟨_, hring⟩
  | testUsed =>
    obtain ⟨-, hs'⟩ := Option.ite_none_right_eq_some.mp hstep
    cases hs'
    rw [SendQueue.testUsed]
    split_ifs <;> exact Or.inl rfl
  | startSubqueue =>
    obtain ⟨-, hs'⟩ := Option.ite_none_right_eq_some.mp hstep
    cases hs'
    rw [SendQueue.startSubqueue]
    split_ifs <;> exact Or.inl rfl
  | disableCb =>
    obtain ⟨-, hs'⟩ := Option.ite_none_right_eq_some.mp hstep
    obtain ⟨ring, hring, rfl⟩ := Option.map_eq_some_iff.mp hs'
    exact Or.inr ⟨_, hring⟩
  | kick notifyOk availEvent =>
    obtain ⟨-, hs'⟩ := Option.ite_none_right_eq_some.mp hstep
    obtain ⟨ring, hring, rfl⟩ := Option.map_eq_some_iff.mp hs'
    exact Or.inr ⟨_, hring⟩
  | readAvail =>
    obtain ⟨ring, hring, rfl⟩ := Option.map_eq_some_iff.mp hstep
    exact Or.inr ⟨_, hring⟩
  | getHead =>
    obtain ⟨ring, hring, rfl⟩ := Option.map_eq_some_iff.mp hstep
    exact Or.inr ⟨_, hring⟩
  | walk =>
    obtain ⟨ring, hring, rfl⟩ := Option.map_eq_some_iff.mp hstep
    exact Or.inr ⟨_, hring⟩
  | complete i len =>
    obtain ⟨-, hs'⟩ := Option.ite_none_right_eq_some.mp hstep
    obtain ⟨ring, hring, rfl⟩ := Option.map_eq_some_iff.mp hs'
    exact Or.inr ⟨_, hring⟩
  | publishUsed =>
    obtain ⟨-, hs'⟩ := Option.ite_none_right_eq_some.mp hstep
    obtain ⟨ring, hring, rfl⟩ := Option.map_eq_some_iff.mp hs'
    exact Or.inr ⟨_, hring⟩
  | needNotify =>
    obtain ⟨-, hs'⟩ := Option.ite_none_right_eq_some.mp hstep
    obtain ⟨ring, hring, rfl⟩ := Option.map_eq_some_iff.mp hs'
    exact Or.inr ⟨_, hring⟩
  | interrupt =>
    obtain ⟨-, hs'⟩ := Option.ite_none_right_eq_some.mp hstep
    cases hs'
    rw [SendQueue.interrupt]
    split_ifs <;> exact Or.inl rfl
  | skbXmitDone =>
    obtain ⟨-, hs'⟩ := Option.ite_none_right_eq_some.mp hstep
    obtain ⟨ring, hring, rfl⟩ := Option.map_eq_some_iff.mp hs'
    exact Or.inr ⟨_, hring⟩
  | wakeSubqueue =>
    obtain ⟨-, hs'⟩ := Option.ite_none_right_eq_some.mp hstep
    cases hs'
    exact Or.inl rfl

theorem Unfailing.step (h : Unfailing p d riov wiov s) (hsize : RingSize p.num) (hnum : 2 + maxSkbFrags ≤ p.num)
    (hind : p.indirect = false) (hdma : p.dmaMap = false) (hd : 2 * d ≤ 2 + maxSkbFrags) {l : Label τ}
    (hl : l.Allowed riov wiov s) (hpacket : l.Packet d) (hstep : step riov wiov s l = some s') :
    Unfailing p d riov wiov s' := by
  refine ⟨h.flowing.step hsize hnum hl hstep, fun hnotify ↦ ?_⟩
  have hnotify' : s.ring.notifyFailed = false := by
    rcases ring_step hstep with hsame | ⟨l', hring⟩
    · rwa [hsame] at hnotify
    · exact notifyFailed_mono hring hnotify
  obtain ⟨buf, hinv, hroomy, hbroken⟩ := h.good hnotify'
  exact hroomy.step hinv hsize hind hdma hd hbroken hl hpacket hstep

theorem unfailing_init [Inhabited τ] {callback event : Bool} (hnum : 2 + maxSkbFrags ≤ num)
    (hinit : init num callback false event false = some s) (d : ℕ) (riov wiov : Option Kiov) :
    RingSize num ∧ Unfailing ⟨num, false, false⟩ d riov wiov s := by
  obtain ⟨hsize, hflowing⟩ := flowing_init hinit riov wiov
  refine ⟨hsize, hflowing, fun _ ↦ ?_⟩
  obtain ⟨ring, hring, rfl⟩ := Option.map_eq_some_iff.mp hinit
  have hnew : ring.added = [] ∧ ring.pc = .idle := by
    rw [Transport.init] at hring
    split at hring <;> cases hring
    exact ⟨rfl, rfl⟩
  obtain ⟨hadded, hpc⟩ := hnew
  have howed : owed ⟨ring, .idle, false, 0, .unlocked⟩ = 0 := by
    rw [owed, hadded, List.length_nil, Nat.zero_sub]
    rfl
  refine ⟨?_, ?_, fun _ _ _ ↦ ?_, fun _ ↦ rfl, fun idx hidx ↦ ?_, (by rintro ⟨⟩), (by rintro ⟨⟩), rfl⟩
  · intro b hb
    rw [hadded] at hb
    exact absurd hb List.not_mem_nil
  · rw [howed, Nat.mul_zero, Nat.zero_add]
    exact hnum.trans (Nat.le_add_right ..)
  · rw [howed, Nat.mul_zero, Nat.zero_add]
    exact hnum.trans (Nat.le_add_right ..)
  · exact absurd (hpc.symm.trans hidx) (by rintro ⟨⟩)

/-- In every run with packets of one number of entries, of which two fit into what `start_xmit` keeps free, on a ring
without indirect tables and without mapping: no packet is dropped, however late the queue is woken, unless a
notification failed. -/
theorem dropped_run [Inhabited τ] {callback event : Bool} {ls : List (Label τ)} {t : SendQueue τ}
    (hnum : 2 + maxSkbFrags ≤ num) (hd : 2 * d ≤ 2 + maxSkbFrags)
    (hinit : init num callback false event false = some s) (hrun : exec (step riov wiov) s ls = some t)
    (hallowed : Along (fun s l _ ↦ l.Allowed riov wiov s ∧ l.Packet d) (step riov wiov) s ls)
    (hnotify : t.ring.notifyFailed = false) : t.dropped = 0 := by
  obtain ⟨hsize, hinit⟩ := unfailing_init hnum hinit d riov wiov
  have h : Unfailing ⟨num, false, false⟩ d riov wiov t := by
    refine exec_invariant ?_ hallowed hinit hrun
    rintro s l s' h ⟨hl, hpacket⟩ hstep
    exact h.step hsize hnum rfl rfl hd hl hpacket hstep
  exact (h.roomy hnotify).kept

/-- `skb_xmit_done` finds a buffer that `start_xmit` frees before the queue is stopped, and wakes it behind that. -/
def sampleLate : List (Label ℕ) :=
  [.startXmit, .readUsed, .getBuf, .addOutbuf (List.replicate 9 ⟨4096, 0, 10⟩) 7 .plain,
    .publishAvail, .stopSubqueue, .kick true 0, .readAvail, .getHead, .walk, .walk, .walk, .walk, .walk, .walk, .walk,
    .walk, .walk, .startXmit, .complete 0 0, .publishUsed, .needNotify, .interrupt, .readUsed, .getBuf, .readUsed,
    .getBuf, .addOutbuf (List.replicate 9 ⟨4096, 0, 10⟩) 8 .plain, .publishAvail, .stopSubqueue,
    .kick true 0, .startXmit, .readUsed, .getBuf,
    .addOutbuf (List.replicate 9 ⟨4096, 0, 10⟩) 9 .plain, .publishAvail, .stopSubqueue,
    .enableCbDelayed, .testUsed, .skbXmitDone, .wakeSubqueue, .kick true 0, .startXmit, .readUsed, .getBuf,
    .addOutbuf (List.replicate 9 ⟨4096, 0, 10⟩) 10 .plain]

theorem dropped_sampleLate : ∃ s t : SendQueue ℕ, init 32 true false false false = some s ∧
    exec (step (some ⟨[], 0, 0, 0, false⟩) none) s sampleLate = some t ∧ t.ring.driver.numFree = 5 ∧ t.dropped = 0 := by
  let s : SendQueue ℕ := (init 32 true false false false).get rfl
  have hinit : init 32 true false false false = some s := (Option.some_get _).symm
  have hrun : (exec (step (some ⟨[], 0, 0, 0, false⟩) none) s sampleLate).map
      (fun t ↦ (t.ring.driver.numFree, t.ring.notifyFailed)) = some (5, false) := by decide +kernel
  have hallowed : Along (fun s l _ ↦ l.Allowed (some ⟨[], 0, 0, 0, false⟩) none s ∧ l.Packet 9)
      (step (some ⟨[], 0, 0, 0, false⟩) none) s sampleLate := by decide +kernel
  obtain ⟨t, ht, hend⟩ := Option.map_eq_some_iff.mp hrun
  obtain ⟨hfree, hnotify⟩ := Prod.ext_iff.mp hend
  exact ⟨s, t, hinit, ht, hfree, dropped_run (by decide) (by decide) hinit ht hallowed hnotify⟩

end Vcass.Virtio.Transmit
