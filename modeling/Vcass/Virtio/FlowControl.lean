import Vcass.Virtio.Transmit

/-!
# A send queue that is stopped is woken

The index that `vca_virtqueue_enable_cb_delayed` asks for is that of a buffer that is still out. Interrupts stay enabled
until `skb_xmit_done` disables them, and then it wakes the queue. So if `start_xmit` leaves the queue stopped, then
either the buffer is still to be completed, or the one that completes it asks for the interrupt behind the barrier and
finds the driver behind.

The invariant says this for every place where `start_xmit` may stand, and `Notified` says what a step of the other
context does about it.
-/

namespace Vcass.Virtio.Transmit

open Conc Virtqueue HostRing Transport

variable {τ : Type} {riov wiov : Option Kiov} {s s' : SendQueue τ} {r r' : Sys τ} {p : Params} {buf : ℕ → Out τ}
  {e : ℕ}

/-! ## The invariant -/

/-- Interrupts are enabled, and wanted for the buffer behind the first `e` ones that are completed. -/
def Fires (r : Sys τ) (e : ℕ) : Prop :=
  r.driver.availFlags &&& availFNoInterrupt = 0 ∧ (r.vrh.eventIndices = true → r.driver.usedEvent = e % 2 ^ 16)

/-- The interrupt comes, or the buffer behind the first `e` ones is still to be completed. -/
structure Armed (s : SendQueue τ) (e : ℕ) : Prop where
  fires : Fires s.ring e
  le : s.ring.returned.length ≤ e
  unlocked : s.notifier = .unlocked → s.ring.completed.length ≤ e
  checking : s.notifier = .completing ∨ s.notifier = .completed → s.ring.completed.length ≤ e + 1

/-- The queue is awake or will be. -/
def Woken (s : SendQueue τ) : Prop := s.stopped = false ∨ s.notifier = .callback ∨ s.notifier = .waking

/-- `free_old_xmit_skbs` sees what comes back, up to its last look. -/
structure Refreeing (s : SendQueue τ) : Prop where
  enabled : s.ring.driver.availFlags &&& availFNoInterrupt = 0
  idle : s.ring.pc = .idle → s.ring.returned.length < s.ring.usedPublished ∨ Fires s.ring s.ring.returned.length
  seen : ∀ idx, s.ring.pc = .seen idx → s.ring.driver.lastUsedIdx = idx → Armed s s.ring.returned.length

/-- What holds where `start_xmit` stands. -/
def Expected (s : SendQueue τ) : Xmit → Prop
  | .idle => Woken s ∨ ∃ e < s.ring.added.length, Armed s e
  | .kicking => Woken s ∨ ∃ e < s.ring.added.length, Armed s e
  | .stopping => s.ring.returned.length < s.ring.added.length
  | .armed => s.ring.pc = .idle ∧ s.ring.returned.length < s.ring.added.length ∧ (Woken s ∨
      Fires s.ring (s.ring.returned.length + (s.ring.added.length - s.ring.returned.length) * 3 / 4))
  | .refreeing => Woken s ∨ Refreeing s
  | .freed => Woken s ∨ Armed s s.ring.returned.length
  | _ => s.stopped = false

/-- What the lock of `put_descriptors` sees to. -/
structure Locked (s : SendQueue τ) : Prop where
  pending : s.ring.pendingIdx = none ↔ s.notifier ≠ .completing
  counted : s.ring.vrh.eventIndices = true → s.ring.vrh.lastUsedIdx < 2 ^ 16 ∧
    (s.notifier = .completed → s.ring.vrh.completed = 1) ∧ (s.notifier = .completing → s.ring.vrh.completed = 1) ∧
      (s.notifier ≠ .completed → s.notifier ≠ .completing → s.ring.vrh.completed = 0)

/-! ## Interrupts -/

/-- `vring_need_event` for one more buffer, the one that is waited for. -/
theorem vringNeedEvent_succ {old c : ℕ} (hold : old < 2 ^ 16) (hc : (old + 1) % 2 ^ 16 = (c + 1) % 2 ^ 16) :
    vringNeedEvent (c % 2 ^ 16) ((old + 1) % 2 ^ 16) old = true := by
  rw [vringNeedEvent, decide_eq_true_eq]
  omega

theorem Armed.needNotify (h : Armed s e) (hlocked : Locked s) (hinv : Inv p riov wiov buf s.ring)
    (hnotifier : s.notifier = .completed)
    (hno : (vringhNeedNotify s.ring.vrh s.ring.driver.availFlags s.ring.driver.usedEvent).1 = false) :
    s.ring.completed.length ≤ e := by
  rw [vringhNeedNotify] at hno
  by_cases hevent : s.ring.vrh.eventIndices = true
  · obtain ⟨hlt, hone, -⟩ := hlocked.counted hevent
    have hidx := hinv.used.hostIdx_eq
    rw [hone hnotifier] at hidx
    rw [hevent, Bool.not_true, if_neg Bool.false_ne_true, hone hnotifier, h.fires.2 hevent] at hno
    dsimp only at hno
    by_contra hbehind
    have hcompleted : s.ring.completed.length = e + 1 := Nat.le_antisymm (h.checking (Or.inr hnotifier)) (by omega)
    rw [hcompleted] at hidx
    rw [vringNeedEvent_succ hlt hidx, Bool.or_true] at hno
    exact Bool.false_ne_true hno.symm
  · rw [Bool.eq_false_of_not_eq_true hevent, Bool.not_false, if_pos rfl, h.fires.1] at hno
    exact absurd hno.symm Bool.false_ne_true

/-- What a step of the host does about the wake-up. -/
structure Notified (s s' : SendQueue τ) : Prop where
  xmit : s'.xmit = s.xmit
  returned : s'.ring.returned = s.ring.returned
  added : s'.ring.added = s.ring.added
  pc : s'.ring.pc = s.ring.pc
  usedPublished : s.ring.usedPublished ≤ s'.ring.usedPublished
  stopped : s.stopped = false → s'.stopped = false
  woken : Woken s → Woken s'
  driver : Woken s' ∨ s'.ring.driver = s.ring.driver ∧ s'.ring.vrh.eventIndices = s.ring.vrh.eventIndices
  armed : Woken s' ∨ ∀ e, Armed s e → Armed s' e

theorem Notified.expected (h : Notified s s') (hexpected : Expected s s.xmit) : Expected s' s'.xmit := by
  have hfires : Woken s' ∨ ∀ e, Fires s.ring e → Fires s'.ring e := by
    rcases h.driver with hwoken | ⟨hdriver, hevent⟩
    · exact Or.inl hwoken
    · refine Or.inr fun e hfires ↦ ?_
      rw [Fires, hdriver, hevent]
      exact hfires
  have harmed : (∃ e < s.ring.added.length, Armed s e) → Woken s' ∨ ∃ e < s'.ring.added.length, Armed s' e := by
    rintro ⟨e, he, hmed⟩
    rcases h.armed with hwoken | harmed
    · exact Or.inl hwoken
    · exact Or.inr ⟨e, by rwa [h.added], harmed e hmed⟩
  rw [h.xmit]
  cases hxmit : s.xmit with
  | idle =>
    rw [hxmit] at hexpected
    exact hexpected.elim (fun hwoken ↦ Or.inl (h.woken hwoken)) harmed
  | kicking =>
    rw [hxmit] at hexpected
    exact hexpected.elim (fun hwoken ↦ Or.inl (h.woken hwoken)) harmed
  | stopping =>
    rw [hxmit] at hexpected
    rw [Expected, h.returned, h.added]
    exact hexpected
  | armed =>
    rw [hxmit] at hexpected
    rw [Expected, h.returned, h.added, h.pc]
    refine ⟨hexpected.1, hexpected.2.1, hexpected.2.2.elim (fun hwoken ↦ Or.inl (h.woken hwoken)) fun hmed ↦ ?_⟩
    exact hfires.imp_right fun hfires ↦ hfires _ hmed
  | refreeing =>
    rw [hxmit] at hexpected
    rcases hexpected with hwoken | ⟨henabled, hidle, hseen⟩
    · exact Or.inl (h.woken hwoken)
    · rcases h.driver with hwoken | ⟨hdriver, -⟩
      · exact Or.inl hwoken
      rcases hfires with hwoken | hfires
      · exact Or.inl hwoken
      rcases h.armed with hwoken | harmed
      · exact Or.inl hwoken
      refine Or.inr ⟨hdriver ▸ henabled, ?_, ?_⟩
      · rw [h.pc, h.returned]
        exact fun hpc ↦ (hidle hpc).imp (fun hlt ↦ hlt.trans_le h.usedPublished) (hfires _)
      · rw [h.pc, h.returned, hdriver]
        exact fun idx hpc hidx ↦ harmed _ (hseen idx hpc hidx)
  | freed =>
    rw [hxmit] at hexpected
    rw [Expected, h.returned]
    refine hexpected.elim (fun hwoken ↦ Or.inl (h.woken hwoken)) fun hmed ↦ ?_
    exact h.armed.imp_right fun harmed ↦ harmed _ hmed
  | freeing =>
    rw [hxmit] at hexpected
    exact h.stopped hexpected
  | sending =>
    rw [hxmit] at hexpected
    exact h.stopped hexpected
  | filled =>
    rw [hxmit] at hexpected
    exact h.stopped hexpected
  | sent =>
    rw [hxmit] at hexpected
    exact h.stopped hexpected
  | restarted =>
    rw [hxmit] at hexpected
    exact h.stopped hexpected

/-! ## Steps of the host -/

theorem fetch_frame {l : Transport.Label τ} (hl : l = .readAvail ∨ l = .getHead ∨ l = .walk)
    (hstep : Transport.step riov wiov r l = some r') : r'.completed = r.completed ∧
      r'.vrh.eventIndices = r.vrh.eventIndices ∧ r'.vrh.lastUsedIdx = r.vrh.lastUsedIdx ∧
        r'.vrh.completed = r.vrh.completed := by
  rcases hl with rfl | rfl | rfl
  · obtain ⟨-, rfl⟩ := step_readAvail.mp hstep
    exact ⟨rfl, rfl, rfl, rfl⟩
  · obtain ⟨idx, -, rfl⟩ := step_getHead.mp hstep
    rw [Sys.getHead, vringhGetHead]
    dsimp only
    split_ifs <;> exact ⟨rfl, rfl, rfl, rfl⟩
  · obtain ⟨head, w, -, rfl⟩ := step_walk.mp hstep
    rw [Sys.walk]
    split <;> exact ⟨rfl, rfl, rfl, rfl⟩

theorem notified_host {l : Transport.Label τ} {ring : Sys τ} {notifier : Notifier} (hl : l.ofHost = true)
    (hstep : Transport.step riov wiov s.ring l = some ring) (hpublished : s.ring.usedPublished ≤ ring.usedPublished)
    (hevent : ring.vrh.eventIndices = s.ring.vrh.eventIndices)
    (hwoken : s.notifier = .callback ∨ s.notifier = .waking → notifier = .callback ∨ notifier = .waking)
    (harmed : ∀ e, Armed s e → (notifier = .unlocked → ring.completed.length ≤ e) ∧
      (notifier = .completing ∨ notifier = .completed → ring.completed.length ≤ e + 1)) :
    Notified s { s with ring := ring, notifier := notifier } := by
  have hdriver := driver_eq_of_host hl hstep
  obtain ⟨hadded, hreturned, hpc, -⟩ := added_eq_of_host hl hstep
  refine ⟨rfl, hreturned, hadded, hpc, hpublished, id, fun h ↦ h.imp_right hwoken, Or.inr ⟨hdriver, hevent⟩,
    Or.inr fun e hmed ↦ ?_⟩
  refine ⟨?_, ?_, (harmed e hmed).1, (harmed e hmed).2⟩
  · rw [Fires, hdriver, hevent]
    exact hmed.fires
  · rw [hreturned]
    exact hmed.le

/-- The invariant. If a notification fails the queue is broken. -/
structure Flowing (p : Params) (riov wiov : Option Kiov) (s : SendQueue τ) : Prop where
  traced : Traced p riov wiov s.ring
  locked : Locked s
  expected : s.ring.notifyFailed = false → Expected s s.xmit

theorem Flowing.notified (h : Flowing p riov wiov s) (htraced : Traced p riov wiov s'.ring) (hlocked : Locked s')
    (hfailed : s'.ring.notifyFailed = s.ring.notifyFailed)
    (hnotified : s.ring.driver.broken = false → Notified s s') : Flowing p riov wiov s' := by
  refine ⟨htraced, hlocked, fun hnotify ↦ ?_⟩
  obtain ⟨buf, hinv⟩ := h.traced
  have hbroken : s.ring.driver.broken = false := by
    refine Bool.eq_false_of_not_eq_true fun hbroken ↦ ?_
    exact Bool.false_ne_true ((hnotify.symm.trans hfailed).trans (hinv.broken hbroken))
  exact (hnotified hbroken).expected (h.expected (hfailed ▸ hnotify))

theorem Flowing.fetch (h : Flowing p riov wiov s) (hsize : RingSize p.num) {l : Transport.Label τ} {ring : Sys τ}
    (hl : l = .readAvail ∨ l = .getHead ∨ l = .walk) (hstep : Transport.step riov wiov s.ring l = some ring) :
    Flowing p riov wiov { s with ring := ring } := by
  have hhost : l.ofHost = true := by rcases hl with rfl | rfl | rfl <;> rfl
  have hback : l.givesBack = false := by rcases hl with rfl | rfl | rfl <;> rfl
  have hallowed : l.Allowed riov wiov s.ring := by rcases hl with rfl | rfl | rfl <;> trivial
  obtain ⟨hused, hpending⟩ := used_eq_of_not hback hstep
  obtain ⟨hcompleted, hevent, hlast, hcount⟩ := fetch_frame hl hstep
  obtain ⟨hadded, hreturned, hpc, hfailed⟩ := added_eq_of_host hhost hstep
  obtain ⟨buf, hinv⟩ := h.traced
  refine h.notified (hinv.step hsize hallowed hstep) ⟨?_, ?_⟩ hfailed fun _ ↦ ?_
  · rw [hpending]
    exact h.locked.pending
  · rw [hevent, hlast, hcount]
    exact h.locked.counted
  · refine notified_host hhost hstep ?_ hevent id fun e hmed ↦ ?_
    · rw [Sys.usedPublished, Sys.usedPublished, hcompleted, hpending]
    · rw [hcompleted]
      exact ⟨hmed.unlocked, hmed.checking⟩

theorem Flowing.complete (h : Flowing p riov wiov s) (hsize : RingSize p.num) {i len : ℕ} {ring : Sys τ}
    (hnotifier : s.notifier = .unlocked) (hstep : Transport.step riov wiov s.ring (.complete i len) = some ring) :
    Flowing p riov wiov { s with ring := ring, notifier := .completing } := by
  have hallowed : Transport.Label.Allowed riov wiov s.ring (.complete i len) := trivial
  obtain ⟨buf, hinv⟩ := h.traced
  obtain ⟨⟨-, hpending⟩, hring⟩ := Option.ite_none_right_eq_some.mp hstep
  obtain ⟨f, -, rfl⟩ := Option.map_eq_some_iff.mp hring
  have hlength : (s.ring.complete i f.head len).completed.length = s.ring.completed.length + 1 := List.length_append
  refine h.notified (hinv.step hsize hallowed hstep) ⟨?_, fun hevent ↦ ?_⟩ rfl fun _ ↦ ?_
  · exact iff_of_false (Option.some_ne_none _) (not_not_intro rfl)
  · obtain ⟨hlt, -, -, hzero⟩ := h.locked.counted hevent
    have hcount : s.ring.vrh.completed = 0 := hzero (by rw [hnotifier]; decide) (by rw [hnotifier]; decide)
    refine ⟨hlt, (by rintro ⟨⟩), fun _ ↦ ?_, fun _ hne ↦ absurd rfl hne⟩
    exact congrArg (· + 1) hcount
  · refine notified_host rfl hstep ?_ rfl ?_ fun e hmed ↦ ⟨?_, fun _ ↦ ?_⟩
    · rw [Sys.usedPublished, Sys.usedPublished, hlength, if_pos hpending]
      exact Nat.le_refl _
    · rw [hnotifier]
      decide
    · rintro ⟨⟩
    · rw [hlength]
      exact Nat.succ_le_succ (hmed.unlocked hnotifier)

theorem Flowing.publishUsed (h : Flowing p riov wiov s) (hsize : RingSize p.num) {ring : Sys τ}
    (hnotifier : s.notifier = .completing) (hstep : Transport.step riov wiov s.ring .publishUsed = some ring) :
    Flowing p riov wiov { s with ring := ring, notifier := .completed } := by
  have hallowed : Transport.Label.Allowed riov wiov s.ring .publishUsed := trivial
  obtain ⟨buf, hinv⟩ := h.traced
  obtain ⟨idx, hpending, rfl⟩ := Option.map_eq_some_iff.mp hstep
  refine h.notified (hinv.step hsize hallowed hstep) ⟨?_, fun hevent ↦ ?_⟩ rfl fun _ ↦ ?_
  · exact iff_of_true rfl (by rintro ⟨⟩)
  · obtain ⟨hlt, -, hone, -⟩ := h.locked.counted hevent
    exact ⟨hlt, fun _ ↦ hone hnotifier, (by rintro ⟨⟩), fun hne _ ↦ absurd rfl hne⟩
  · refine notified_host rfl hstep ?_ rfl ?_ fun e hmed ↦ ⟨?_, fun _ ↦ hmed.checking (Or.inl hnotifier)⟩
    · exact hinv.counts.2.1
    · rw [hnotifier]
      decide
    · rintro ⟨⟩

theorem Flowing.needNotify (h : Flowing p riov wiov s) (hsize : RingSize p.num) {ring : Sys τ}
    (hnotifier : s.notifier = .completed) (hstep : Transport.step riov wiov s.ring .needNotify = some ring) :
    Flowing p riov wiov (s.needNotify ring) := by
  have hallowed : Transport.Label.Allowed riov wiov s.ring .needNotify := trivial
  obtain ⟨buf, hinv⟩ := h.traced
  have hstep' := hstep
  obtain ⟨hpending, hring⟩ := Option.ite_none_right_eq_some.mp hstep
  cases hring
  have hvrh : (vringhNeedNotify s.ring.vrh s.ring.driver.availFlags s.ring.driver.usedEvent).2.eventIndices =
      s.ring.vrh.eventIndices ∧ (s.ring.vrh.eventIndices = true →
        (vringhNeedNotify s.ring.vrh s.ring.driver.availFlags s.ring.driver.usedEvent).2.lastUsedIdx < 2 ^ 16 ∧
          (vringhNeedNotify s.ring.vrh s.ring.driver.availFlags s.ring.driver.usedEvent).2.completed = 0) := by
    rw [vringhNeedNotify]
    split_ifs with hevent
    · rw [Bool.not_eq_true'] at hevent
      exact ⟨rfl, fun htrue ↦ absurd (hevent.symm.trans htrue) Bool.false_ne_true⟩
    · exact ⟨rfl, fun _ ↦ ⟨Nat.mod_lt _ (by decide), rfl⟩⟩
  obtain ⟨heventIndices, hcounted⟩ := hvrh
  rw [SendQueue.needNotify]
  set need := (vringhNeedNotify s.ring.vrh s.ring.driver.availFlags s.ring.driver.usedEvent).1 with hneed
  have hnext : (if need = true then Notifier.interrupting else .unlocked) ≠ .completing ∧
      (if need = true then Notifier.interrupting else .unlocked) ≠ .completed := by
    split_ifs <;> decide
  refine h.notified (hinv.step hsize hallowed hstep') ⟨?_, fun hevent ↦ ?_⟩ rfl fun _ ↦ ?_
  · exact iff_of_true hpending hnext.1
  · obtain ⟨hlt, hzero⟩ := hcounted (heventIndices ▸ hevent)
    exact ⟨hlt, fun heq ↦ absurd heq hnext.2, fun heq ↦ absurd heq hnext.1, fun _ _ ↦ hzero⟩
  · refine notified_host rfl hstep' (Nat.le_refl _) heventIndices ?_ fun e hmed ↦ ⟨fun hunlocked ↦ ?_, fun heq ↦ ?_⟩
    · rw [hnotifier]
      exact fun hor ↦ absurd hor (by decide)
    · refine hmed.needNotify h.locked hinv hnotifier (Bool.eq_false_of_not_eq_true fun htrue ↦ ?_)
      rw [if_pos htrue] at hunlocked
      cases hunlocked
    · exact absurd heq (not_or.mpr hnext)

/-- `vca_vring_interrupt` calls `skb_xmit_done` unless the driver has got everything. -/
theorem Flowing.interrupt (h : Flowing p riov wiov s) (hsize : RingSize p.num)
    (hnotifier : s.notifier = .interrupting) : Flowing p riov wiov s.interrupt := by
  obtain ⟨buf, hinv⟩ := h.traced
  have hpending : s.ring.pendingIdx = none := h.locked.pending.mpr (by rw [hnotifier]; decide)
  have hcounted := h.locked.counted
  have hlocked : ∀ {notifier : Notifier}, notifier ≠ .completing → notifier ≠ .completed →
      Locked { s with notifier := notifier } := by
    intro notifier hcompleting hcompleted
    refine ⟨iff_of_true hpending hcompleting, fun hevent ↦ ?_⟩
    obtain ⟨hlt, -, -, hzero⟩ := hcounted hevent
    exact ⟨hlt, fun heq ↦ absurd heq hcompleted, fun heq ↦ absurd heq hcompleting,
      fun _ _ ↦ hzero (by rw [hnotifier]; decide) (by rw [hnotifier]; decide)⟩
  have hnone : ¬(s.notifier = .callback ∨ s.notifier = .waking) := by
    rw [hnotifier]
    decide
  rw [SendQueue.interrupt]
  split_ifs with hmore hbroken
  · refine h.notified h.traced (hlocked (by decide) (by decide)) rfl fun _ ↦ ?_
    have hcaught : s.ring.driver.lastUsedIdx = s.ring.used.idx := by
      rw [moreUsed, Bool.not_eq_true'] at hmore
      exact Decidable.of_not_not (of_decide_eq_false hmore)
    have hpublished := (hinv.lastUsedIdx_eq_iff hsize).mp hcaught
    rw [Sys.usedPublished, if_pos hpending, Nat.sub_zero] at hpublished
    refine ⟨rfl, rfl, rfl, rfl, Nat.le_refl _, id, fun hwoken ↦ hwoken.imp_right fun hor ↦ absurd hor hnone,
      Or.inr ⟨rfl, rfl⟩, Or.inr fun e hmed ↦ ⟨hmed.fires, hmed.le, fun _ ↦ ?_, fun hor ↦ absurd hor (by simp)⟩⟩
    rw [← hpublished]
    exact hmed.le
  · refine h.notified h.traced (hlocked (by decide) (by decide)) rfl fun hok ↦ ?_
    exact absurd (hok.symm.trans hbroken) Bool.false_ne_true
  · refine h.notified h.traced (hlocked (by decide) (by decide)) rfl fun _ ↦ ?_
    have hwoken : Woken { s with notifier := .callback } := Or.inr (Or.inl rfl)
    exact ⟨rfl, rfl, rfl, rfl, Nat.le_refl _, id, fun _ ↦ hwoken, Or.inl hwoken, Or.inl hwoken⟩

theorem Locked.driver (h : Locked s) {l : Transport.Label τ} {ring : Sys τ} (hl : l.ofHost = false)
    (hstep : Transport.step riov wiov s.ring l = some ring) (xmit : Xmit) (stopped : Bool) (dropped : ℕ) :
    Locked ⟨ring, xmit, stopped, dropped, s.notifier⟩ := by
  have hback : l.givesBack = false := by
    cases l with
    | complete => exact absurd hl.symm Bool.false_ne_true
    | publishUsed => exact absurd hl.symm Bool.false_ne_true
    | _ => rfl
  refine ⟨?_, ?_⟩
  · rw [(used_eq_of_not hback hstep).2]
    exact h.pending
  · rw [(vrh_eq_of_driver hl hstep).1]
    exact h.counted

theorem Flowing.skbXmitDone (h : Flowing p riov wiov s) (hsize : RingSize p.num) {ring : Sys τ}
    (hnotifier : s.notifier = .callback) (hstep : Transport.step riov wiov s.ring .disableCb = some ring) :
    Flowing p riov wiov { s with ring := ring, notifier := .waking } := by
  have hallowed : Transport.Label.Allowed riov wiov s.ring .disableCb := trivial
  obtain ⟨buf, hinv⟩ := h.traced
  have hlocked := h.locked.driver rfl hstep s.xmit s.stopped s.dropped
  have hpublished := (used_eq_of_not rfl hstep).2
  cases hstep
  have hwoken : Woken { s with ring := { s.ring with driver := vcaVirtqueueDisableCb s.ring.driver }
                               notifier := .waking } := Or.inr (Or.inr rfl)
  refine h.notified (hinv.step hsize hallowed rfl) ⟨?_, fun hevent ↦ ?_⟩ rfl fun _ ↦ ?_
  · exact iff_of_true (hlocked.pending.mpr (by rw [hnotifier]; decide)) (by rintro ⟨⟩)
  · obtain ⟨hlt, -, -, hzero⟩ := hlocked.counted hevent
    exact ⟨hlt, (by rintro ⟨⟩), (by rintro ⟨⟩),
      fun _ _ ↦ hzero (by rw [hnotifier]; decide) (by rw [hnotifier]; decide)⟩
  · exact ⟨rfl, rfl, rfl, rfl, Nat.le_refl _, id, fun _ ↦ hwoken, Or.inl hwoken, Or.inl hwoken⟩

theorem Flowing.wakeSubqueue (h : Flowing p riov wiov s) (hnotifier : s.notifier = .waking) :
    Flowing p riov wiov { s with stopped := false, notifier := .unlocked } := by
  refine h.notified h.traced ⟨?_, fun hevent ↦ ?_⟩ rfl fun _ ↦ ?_
  · exact iff_of_true (h.locked.pending.mpr (by rw [hnotifier]; decide)) (by rintro ⟨⟩)
  · obtain ⟨hlt, -, -, hzero⟩ := h.locked.counted hevent
    exact ⟨hlt, (by rintro ⟨⟩), (by rintro ⟨⟩),
      fun _ _ ↦ hzero (by rw [hnotifier]; decide) (by rw [hnotifier]; decide)⟩
  · have hwoken : Woken { s with stopped := false, notifier := .unlocked } := Or.inl rfl
    exact ⟨rfl, rfl, rfl, rfl, Nat.le_refl _, fun _ ↦ rfl, fun _ ↦ hwoken, Or.inl hwoken, Or.inl hwoken⟩

/-! ## Steps of `start_xmit` -/

theorem Flowing.awake (h : Flowing p riov wiov s) (hsize : RingSize p.num) {l : Transport.Label τ} {ring : Sys τ}
    (hstep : Transport.step riov wiov s.ring l = some ring) (hl : l.ofHost = false)
    (hallowed : l.Allowed riov wiov s.ring) {xmit : Xmit} {dropped : ℕ}
    (hexpected : ring.notifyFailed = false → Expected ⟨ring, xmit, s.stopped, dropped, s.notifier⟩ xmit) :
    Flowing p riov wiov ⟨ring, xmit, s.stopped, dropped, s.notifier⟩ := by
  obtain ⟨buf, hinv⟩ := h.traced
  exact ⟨hinv.step hsize hallowed hstep, h.locked.driver hl hstep xmit s.stopped dropped, hexpected⟩

/-- If descriptors are missing a buffer is out. -/
theorem returned_lt (hinv : Inv p riov wiov buf r) (hnum : 2 + maxSkbFrags ≤ p.num)
    (hfree : r.driver.numFree < 2 + maxSkbFrags) : r.returned.length < r.added.length := by
  by_contra hle
  obtain ⟨-, hroom, -⟩ := hinv.room
  have hnil : r.live = [] := List.length_eq_zero_iff.mp (by omega)
  have hsound := hinv.sound
  rw [hnil, List.map_nil] at hsound
  have hall := hsound.numFree_eq
  have hparams : r.driver.num = p.num := congrArg Params.num hinv.params
  omega

/-- All that was completed was given back when the driver has caught up and nobody is between the two. -/
theorem completed_le (hlocked : Locked s) {c : ℕ} (hc : s.ring.usedPublished = c) :
    (s.notifier = .unlocked → s.ring.completed.length ≤ c) ∧ s.ring.completed.length ≤ c + 1 := by
  rw [Sys.usedPublished] at hc
  constructor
  · intro hnotifier
    rw [if_pos (hlocked.pending.mpr (by rw [hnotifier]; decide))] at hc
    exact Nat.le_of_eq hc
  · split_ifs at hc <;> omega

theorem Flowing.readUsed (h : Flowing p riov wiov s) (hsize : RingSize p.num)
    (hxmit : s.xmit = .freeing ∨ s.xmit = .refreeing) {ring : Sys τ}
    (hstep : Transport.step riov wiov s.ring .readUsed = some ring) : Flowing p riov wiov { s with ring := ring } := by
  refine h.awake hsize hstep rfl trivial fun hnotify ↦ ?_
  obtain ⟨buf, hinv⟩ := h.traced
  obtain ⟨hpc, hring⟩ := Option.ite_none_right_eq_some.mp hstep
  cases hring
  have hexpected := h.expected hnotify
  rcases hxmit with hxmit | hxmit
  · rw [hxmit] at hexpected ⊢
    exact hexpected
  · rw [hxmit] at hexpected ⊢
    rcases hexpected with hwoken | ⟨henabled, hidle, -⟩
    · exact Or.inl hwoken
    · refine Or.inr ⟨henabled, (by rintro ⟨⟩), ?_⟩
      rintro idx ⟨⟩ hidx
      have hcaught := (hinv.lastUsedIdx_eq_iff hsize).mp hidx
      obtain ⟨hunlocked, hle⟩ := completed_le h.locked hcaught.symm
      exact ⟨(hidle hpc).resolve_left (Nat.not_lt.mpr (Nat.le_of_eq hcaught.symm)), Nat.le_refl _, hunlocked,
        fun _ ↦ hle⟩

/-- With interrupts enabled the event index goes along with what `free_old_xmit_skbs` gets. -/
theorem Flowing.getBuf (h : Flowing p riov wiov s) (hsize : RingSize p.num)
    (hxmit : s.xmit = .freeing ∨ s.xmit = .refreeing) {ring : Sys τ}
    (hstep : Transport.step riov wiov s.ring .getBuf = some ring) : Flowing p riov wiov (s.freed ring) := by
  rw [SendQueue.freed]
  refine h.awake hsize hstep rfl trivial fun hnotify ↦ ?_
  obtain ⟨buf, hinv⟩ := h.traced
  obtain ⟨idx, hpc, rfl⟩ := step_getBuf.mp hstep
  have hfailed : s.ring.notifyFailed = false := by
    rw [← hnotify, Sys.getBuf]
    split <;> rfl
  have hbroken : s.ring.driver.broken = false := by
    refine Bool.eq_false_of_not_eq_true fun hbroken ↦ ?_
    exact Bool.false_ne_true (hfailed.symm.trans (hinv.broken hbroken))
  have hexpected := h.expected hfailed
  by_cases hidx : s.ring.driver.lastUsedIdx = idx
  · rw [getBuf_null (Or.inr hidx), if_neg (Nat.lt_irrefl _)]
    rcases hxmit with hxmit | hxmit
    · rw [hxmit] at hexpected ⊢
      exact hexpected
    · rw [hxmit] at hexpected ⊢
      rw [if_neg (by decide)]
      rcases hexpected with hwoken | ⟨-, -, hseen⟩
      · exact Or.inl hwoken
      · obtain ⟨hfires, hle, hunlocked, hchecking⟩ := hseen idx hpc hidx
        exact Or.inr ⟨hfires, hle, hunlocked, hchecking⟩
  · obtain ⟨c, books, -, -, -, -, -, -, heq⟩ := hinv.getBuf_eq hsize hpc hbroken hidx
    have hlength : (s.ring.getBuf idx).returned.length = s.ring.returned.length + 1 := by
      rw [heq]
      exact List.length_append
    rw [if_pos (by rw [hlength]; exact Nat.lt_succ_self _)]
    rcases hxmit with hxmit | hxmit
    · rw [hxmit] at hexpected ⊢
      exact hexpected
    · rw [hxmit] at hexpected ⊢
      rcases hexpected with hwoken | ⟨henabled, -, -⟩
      · exact Or.inl hwoken
      · refine Or.inr ⟨?_, fun _ ↦ Or.inr ⟨?_, fun _ ↦ ?_⟩, fun idx' hpc' ↦ ?_⟩
        · rw [heq]
          exact henabled
        · rw [heq]
          exact henabled
        · dsimp only
          rw [hlength, heq]
          dsimp only
          rw [advance]
          dsimp only
          rw [if_pos henabled, hinv.used.driverIdx_eq, Nat.mod_add_mod]
        · rw [heq] at hpc'
          cases hpc'

theorem Flowing.addOutbuf (h : Flowing p riov wiov s) (hsize : RingSize p.num) (hxmit : s.xmit = .sending)
    {sg : List Sg} {data : τ} {env : AddEnv}
    (hallowed : (Transport.Label.addSgs [sg] [] data env).Allowed riov wiov s.ring) {ring : Sys τ}
    (hstep : Transport.step riov wiov s.ring (.addSgs [sg] [] data env) = some ring) :
    Flowing p riov wiov (s.added ring) := by
  have hawake : ring.notifyFailed = false → s.stopped = false := by
    intro hnotify
    obtain ⟨-, hring⟩ := Option.ite_none_right_eq_some.mp hstep
    cases hring
    have hfailed : s.ring.notifyFailed = false := by
      rw [Sys.addSgs] at hnotify
      dsimp only at hnotify
      refine (Bool.or_eq_false_iff.mp (?_ : (s.ring.notifyFailed || !env.notifyOk) = false)).1
      split at hnotify <;> exact hnotify
    have hexpected := h.expected hfailed
    rw [hxmit] at hexpected
    exact hexpected
  rw [SendQueue.added]
  split_ifs
  · exact h.awake hsize hstep rfl hallowed hawake
  · exact h.awake hsize hstep rfl hallowed fun hnotify ↦ Or.inl (Or.inl (hawake hnotify))

theorem Flowing.publishAvail (h : Flowing p riov wiov s) (hsize : RingSize p.num) (hxmit : s.xmit = .filled)
    {ring : Sys τ} (hstep : Transport.step riov wiov s.ring .publishAvail = some ring) :
    Flowing p riov wiov { s with ring := ring, xmit := .sent } := by
  refine h.awake hsize hstep rfl trivial fun hnotify ↦ ?_
  obtain ⟨-, hring⟩ := Option.ite_none_right_eq_some.mp hstep
  cases hring
  have hexpected := h.expected hnotify
  rw [hxmit] at hexpected
  exact hexpected

/-- The queue is only stopped while a buffer is out. -/
theorem Flowing.stopSubqueue (h : Flowing p riov wiov s) (hnum : 2 + maxSkbFrags ≤ p.num) (hxmit : s.xmit = .sent) :
    Flowing p riov wiov s.stopSubqueue := by
  obtain ⟨buf, hinv⟩ := h.traced
  rw [SendQueue.stopSubqueue]
  split_ifs with hfree
  · exact ⟨h.traced, ⟨h.locked.pending, h.locked.counted⟩, fun _ ↦ returned_lt hinv hnum hfree⟩
  · refine ⟨h.traced, ⟨h.locked.pending, h.locked.counted⟩, fun hnotify ↦ Or.inl (Or.inl ?_)⟩
    have hexpected := h.expected hnotify
    rw [hxmit] at hexpected
    exact hexpected

theorem clearFlag_and (flags : ℕ) : clearFlag flags availFNoInterrupt &&& availFNoInterrupt = 0 := by
  rw [clearFlag, Nat.and_assoc]
  exact Nat.and_zero flags

theorem sub_mod_eq {a b : ℕ} (hle : b ≤ a) (hlt : a < b + 2 ^ 16) :
    (a % 2 ^ 16 + 2 ^ 16 - b % 2 ^ 16) % 2 ^ 16 = a - b := by
  omega

/-- The index that `vca_virtqueue_enable_cb_delayed` asks for, and its test behind the barrier. -/
theorem enableCbDelayed_eq (hinv : Inv p riov wiov buf r) (hsize : RingSize p.num) :
    (vcaVirtqueueEnableCbDelayed r.driver r.used.idx).2.usedEvent =
        (r.returned.length + (r.added.length - r.returned.length) * 3 / 4) % 2 ^ 16 ∧
      ((vcaVirtqueueEnableCbDelayed r.driver r.used.idx).1 = true ↔
        r.usedPublished ≤ r.returned.length + (r.added.length - r.returned.length) * 3 / 4) := by
  obtain ⟨hreturned, hpublished, hcompleted, hroom⟩ := hinv.counts
  have hlt := hsize.lt
  rw [vcaVirtqueueEnableCbDelayed, hinv.avail.driverIdx_eq, hinv.used.driverIdx_eq, hinv.used.memIdx_eq]
  have hbufs : (r.added.length - r.returned.length) * 3 / 4 < 2 ^ 16 := by omega
  dsimp only
  rw [decide_eq_true_eq, sub_mod_eq (by omega) (by omega), sub_mod_eq hreturned (by omega), Nat.mod_eq_of_lt hbufs,
    Nat.mod_add_mod]
  exact ⟨rfl, Nat.sub_le_iff_le_add'⟩

theorem Flowing.enableCbDelayed (h : Flowing p riov wiov s) (hsize : RingSize p.num) (hxmit : s.xmit = .stopping)
    {ring : Sys τ} (hstep : Transport.step riov wiov s.ring .enableCbDelayed = some ring) :
    Flowing p riov wiov { s with ring := ring, xmit := .armed } := by
  refine h.awake hsize hstep rfl trivial fun hnotify ↦ ?_
  obtain ⟨buf, hinv⟩ := h.traced
  obtain ⟨hpc, hring⟩ := Option.ite_none_right_eq_some.mp hstep
  cases hring
  have hexpected := h.expected hnotify
  rw [hxmit] at hexpected
  exact ⟨hpc, hexpected, Or.inr ⟨clearFlag_and _, fun _ ↦ (enableCbDelayed_eq hinv hsize).1⟩⟩

/-- The test says whether to look at the used ring again. -/
theorem Flowing.testUsed (h : Flowing p riov wiov s) (hsize : RingSize p.num) (hxmit : s.xmit = .armed) :
    Flowing p riov wiov s.testUsed := by
  obtain ⟨buf, hinv⟩ := h.traced
  have htest := (enableCbDelayed_eq hinv hsize).2
  rw [SendQueue.testUsed]
  split_ifs with hfew
  · refine ⟨h.traced, ⟨h.locked.pending, h.locked.counted⟩, fun hnotify ↦ ?_⟩
    have hexpected := h.expected hnotify
    rw [hxmit] at hexpected
    obtain ⟨-, hout, hwoken | hfires⟩ := hexpected
    · exact Or.inl hwoken
    · have hpublished := htest.mp hfew
      obtain ⟨hunlocked, hle⟩ := completed_le h.locked rfl
      refine Or.inr ⟨_, ?_, hfires, ?_, fun hn ↦ (hunlocked hn).trans hpublished, fun _ ↦ hle.trans ?_⟩
      · dsimp only
        omega
      · dsimp only
        omega
      · exact Nat.succ_le_succ hpublished
  · refine ⟨h.traced, ⟨h.locked.pending, h.locked.counted⟩, fun hnotify ↦ ?_⟩
    have hexpected := h.expected hnotify
    rw [hxmit] at hexpected
    obtain ⟨hpc, -, hwoken | hfires⟩ := hexpected
    · exact Or.inl hwoken
    · refine Or.inr ⟨hfires.1, fun _ ↦ Or.inl ?_, fun idx hidx ↦ ?_⟩
      · have hmany := mt htest.mpr hfew
        dsimp only
        omega
      · exact absurd (hpc.symm.trans hidx) (by rintro ⟨⟩)

theorem Flowing.startSubqueue (h : Flowing p riov wiov s) (hnum : 2 + maxSkbFrags ≤ p.num) (hxmit : s.xmit = .freed) :
    Flowing p riov wiov s.startSubqueue := by
  obtain ⟨buf, hinv⟩ := h.traced
  rw [SendQueue.startSubqueue]
  split_ifs with hfree
  · exact ⟨h.traced, ⟨h.locked.pending, h.locked.counted⟩, fun _ ↦ rfl⟩
  · refine ⟨h.traced, ⟨h.locked.pending, h.locked.counted⟩, fun hnotify ↦ ?_⟩
    have hexpected := h.expected hnotify
    rw [hxmit] at hexpected
    refine hexpected.imp id fun hmed ↦ ⟨_, returned_lt hinv hnum (Nat.not_le.mp hfree), ?_⟩
    exact ⟨hmed.fires, hmed.le, hmed.unlocked, hmed.checking⟩

theorem Flowing.disableCb (h : Flowing p riov wiov s) (hsize : RingSize p.num) (hxmit : s.xmit = .restarted)
    {ring : Sys τ} (hstep : Transport.step riov wiov s.ring .disableCb = some ring) :
    Flowing p riov wiov { s with ring := ring, xmit := .kicking } := by
  refine h.awake hsize hstep rfl trivial fun hnotify ↦ Or.inl (Or.inl ?_)
  cases hstep
  have hexpected := h.expected hnotify
  rw [hxmit] at hexpected
  exact hexpected

theorem kick_flags (vq : VringVirtqueue τ) (notifyOk : Bool) (availEvent usedFlags : ℕ) :
    (vcaVirtqueueKick vq notifyOk availEvent usedFlags).2.availFlags = vq.availFlags ∧
      (vcaVirtqueueKick vq notifyOk availEvent usedFlags).2.usedEvent = vq.usedEvent := by
  rw [vcaVirtqueueKick, vcaVirtqueueKickPrepare]
  dsimp only
  rw [vcaVirtqueueNotify]
  split_ifs <;> exact ⟨rfl, rfl⟩

theorem Flowing.kick (h : Flowing p riov wiov s) (hsize : RingSize p.num) (hxmit : s.xmit = .kicking) {notifyOk : Bool}
    {availEvent : ℕ} {ring : Sys τ} (hstep : Transport.step riov wiov s.ring (.kick notifyOk availEvent) = some ring) :
    Flowing p riov wiov { s with ring := ring, xmit := .idle } := by
  refine h.awake hsize hstep rfl trivial fun hnotify ↦ ?_
  obtain ⟨-, hring⟩ := Option.ite_none_right_eq_some.mp hstep
  cases hring
  have hexpected := h.expected (Bool.or_eq_false_iff.mp hnotify).1
  rw [hxmit] at hexpected
  obtain ⟨hflags, hevent⟩ := kick_flags s.ring.driver notifyOk availEvent s.ring.used.flags
  refine hexpected.imp id fun hmed ↦ ?_
  obtain ⟨e, he, hfires, hle, hunlocked, hchecking⟩ := hmed
  refine ⟨e, he, ⟨?_, ?_⟩, hle, hunlocked, hchecking⟩
  · dsimp only
    rw [hflags]
    exact hfires.1
  · dsimp only
    rw [hevent]
    exact hfires.2

/-! ## Runs -/

theorem Flowing.step (h : Flowing p riov wiov s) (hsize : RingSize p.num) (hnum : 2 + maxSkbFrags ≤ p.num) {l : Label τ}
    (hl : l.Allowed riov wiov s) (hstep : step riov wiov s l = some s') : Flowing p riov wiov s' := by
  cases l with
  | startXmit =>
    obtain ⟨⟨-, hawake⟩, hs'⟩ := Option.ite_none_right_eq_some.mp hstep
    cases hs'
    exact ⟨h.traced, ⟨h.locked.pending, h.locked.counted⟩, fun _ ↦ hawake⟩
  | readUsed =>
    obtain ⟨hxmit, hs'⟩ := Option.ite_none_right_eq_some.mp hstep
    obtain ⟨ring, hring, rfl⟩ := Option.map_eq_some_iff.mp hs'
    exact h.readUsed hsize hxmit hring
  | getBuf =>
    obtain ⟨hxmit, hs'⟩ := Option.ite_none_right_eq_some.mp hstep
    obtain ⟨ring, hring, rfl⟩ := Option.map_eq_some_iff.mp hs'
    exact h.getBuf hsize hxmit hring
  | addOutbuf sg data env =>
    obtain ⟨hxmit, hs'⟩ := Option.ite_none_right_eq_some.mp hstep
    obtain ⟨ring, hring, rfl⟩ := Option.map_eq_some_iff.mp hs'
    exact h.addOutbuf hsize hxmit hl hring
  | publishAvail =>
    obtain ⟨hxmit, hs'⟩ := Option.ite_none_right_eq_some.mp hstep
    obtain ⟨ring, hring, rfl⟩ := Option.map_eq_some_iff.mp hs'
    exact h.publishAvail hsize hxmit hring
  | stopSubqueue =>
    obtain ⟨hxmit, hs'⟩ := Option.ite_none_right_eq_some.mp hstep
    cases hs'
    exact h.stopSubqueue hnum hxmit
  | enableCbDelayed =>
    obtain ⟨hxmit, hs'⟩ := Option.ite_none_right_eq_some.mp hstep
    obtain ⟨ring, hring, rfl⟩ := Option.map_eq_some_iff.mp hs'
    exact h.enableCbDelayed hsize hxmit hring
  | testUsed =>
    obtain ⟨hxmit, hs'⟩ := Option.ite_none_right_eq_some.mp hstep
    cases hs'
    exact h.testUsed hsize hxmit
  | startSubqueue =>
    obtain ⟨hxmit, hs'⟩ := Option.ite_none_right_eq_some.mp hstep
    cases hs'
    exact h.startSubqueue hnum hxmit
  | disableCb =>
    obtain ⟨hxmit, hs'⟩ := Option.ite_none_right_eq_some.mp hstep
    obtain ⟨ring, hring, rfl⟩ := Option.map_eq_some_iff.mp hs'
    exact h.disableCb hsize hxmit hring
  | kick notifyOk availEvent =>
    obtain ⟨hxmit, hs'⟩ := Option.ite_none_right_eq_some.mp hstep
    obtain ⟨ring, hring, rfl⟩ := Option.map_eq_some_iff.mp hs'
    exact h.kick hsize hxmit hring
  | readAvail =>
    obtain ⟨ring, hring, rfl⟩ := Option.map_eq_some_iff.mp hstep
    exact h.fetch hsize (Or.inl rfl) hring
  | getHead =>
    obtain ⟨ring, hring, rfl⟩ := Option.map_eq_some_iff.mp hstep
    exact h.fetch hsize (Or.inr (Or.inl rfl)) hring
  | walk =>
    obtain ⟨ring, hring, rfl⟩ := Option.map_eq_some_iff.mp hstep
    exact h.fetch hsize (Or.inr (Or.inr rfl)) hring
  | complete i len =>
    obtain ⟨hnotifier, hs'⟩ := Option.ite_none_right_eq_some.mp hstep
    obtain ⟨ring, hring, rfl⟩ := Option.map_eq_some_iff.mp hs'
    exact h.complete hsize hnotifier hring
  | publishUsed =>
    obtain ⟨hnotifier, hs'⟩ := Option.ite_none_right_eq_some.mp hstep
    obtain ⟨ring, hring, rfl⟩ := Option.map_eq_some_iff.mp hs'
    exact h.publishUsed hsize hnotifier hring
  | needNotify =>
    obtain ⟨hnotifier, hs'⟩ := Option.ite_none_right_eq_some.mp hstep
    obtain ⟨ring, hring, rfl⟩ := Option.map_eq_some_iff.mp hs'
    exact h.needNotify hsize hnotifier hring
  | interrupt =>
    obtain ⟨hnotifier, hs'⟩ := Option.ite_none_right_eq_some.mp hstep
    cases hs'
    exact h.interrupt hsize hnotifier
  | skbXmitDone =>
    obtain ⟨hnotifier, hs'⟩ := Option.ite_none_right_eq_some.mp hstep
    obtain ⟨ring, hring, rfl⟩ := Option.map_eq_some_iff.mp hs'
    exact h.skbXmitDone hsize hnotifier hring
  | wakeSubqueue =>
    obtain ⟨hnotifier, hs'⟩ := Option.ite_none_right_eq_some.mp hstep
    cases hs'
    exact h.wakeSubqueue hnotifier

theorem flowing_init [Inhabited τ] {num : ℕ} {callback indirect event dmaMap : Bool}
    (hinit : init num callback indirect event dmaMap = some s) (riov wiov : Option Kiov) :
    RingSize num ∧ Flowing ⟨num, indirect, dmaMap⟩ riov wiov s := by
  obtain ⟨ring, hring, rfl⟩ := Option.map_eq_some_iff.mp hinit
  obtain ⟨hsize, hinv⟩ := inv_init hring riov wiov fun _ ↦ ⟨default, [], 0, [], none⟩
  refine ⟨hsize, ⟨_, hinv⟩, ⟨?_, fun _ ↦ ?_⟩, fun _ ↦ Or.inl (Or.inl rfl)⟩
  · rw [Transport.init] at hring
    split at hring <;> cases hring
    exact iff_of_true rfl (by rintro ⟨⟩)
  · rw [Transport.init, vcaVringhInitKern] at hring
    split_ifs at hring
    · split at hring <;> rename_i heq <;> cases hring
      cases heq
    · split at hring <;> rename_i heq <;> cases hring
      cases heq
      exact ⟨Nat.two_pow_pos 16, (by rintro ⟨⟩), (by rintro ⟨⟩), fun _ _ ↦ rfl⟩

theorem Flowing.exec {num : ℕ} {indirect dmaMap : Bool} {ls : List (Label τ)} {t : SendQueue τ}
    (h : Flowing ⟨num, indirect, dmaMap⟩ riov wiov s) (hsize : RingSize num) (hnum : 2 + maxSkbFrags ≤ num)
    (hrun : exec (Transmit.step riov wiov) s ls = some t)
    (hallowed : Along (fun s l _ ↦ l.Allowed riov wiov s) (Transmit.step riov wiov) s ls) :
    Flowing ⟨num, indirect, dmaMap⟩ riov wiov t := by
  refine exec_invariant ?_ hallowed h hrun
  rintro s l s' h hl hstep
  exact h.step hsize hnum hl hstep

/-- In every run, whatever the order in which `start_xmit` and `put_descriptors` go on: if the queue is stopped and
neither of the two is in progress then there is a buffer that is still to be completed, unless the queue was broken by
a notification that failed. So a queue whose buffers are all completed is awake. -/
theorem woken_run [Inhabited τ] {num : ℕ} {callback indirect event dmaMap : Bool} {ls : List (Label τ)}
    {t : SendQueue τ} (hnum : 2 + maxSkbFrags ≤ num) (hinit : init num callback indirect event dmaMap = some s)
    (hrun : exec (step riov wiov) s ls = some t)
    (hallowed : Along (fun s l _ ↦ l.Allowed riov wiov s) (step riov wiov) s ls) (hxmit : t.xmit = .idle)
    (hnotifier : t.notifier = .unlocked) (hnotify : t.ring.notifyFailed = false) (hstopped : t.stopped = true) :
    t.ring.completed.length < t.ring.added.length := by
  obtain ⟨hsize, hinit⟩ := flowing_init hinit riov wiov
  have hexpected := (hinit.exec hsize hnum hrun hallowed).expected hnotify
  rw [hxmit] at hexpected
  rcases hexpected with hwoken | ⟨e, he, hmed⟩
  · rw [Woken, hstopped, hnotifier] at hwoken
    exact absurd hwoken (by decide)
  · exact (hmed.unlocked hnotifier).trans_lt he

/-- A packet that leaves few descriptors free. -/
def sampleXmit : List (Label ℕ) :=
  [.startXmit, .readUsed, .getBuf, .addOutbuf (List.replicate 14 ⟨4096, 0, 10⟩) 7 .plain,
    .publishAvail, .stopSubqueue, .enableCbDelayed, .testUsed, .kick true 0, .readAvail, .getHead]

theorem woken_sampleXmit : ∃ s t : SendQueue ℕ, init 32 true false false false = some s ∧
    exec (step (some ⟨[], 0, 0, 0, false⟩) none) s sampleXmit = some t ∧
      t.ring.completed.length < t.ring.added.length :=
  ⟨_, _, rfl, rfl, @woken_run ℕ (some ⟨[], 0, 0, 0, false⟩) none _ _ 32 true false false false sampleXmit _
    (by decide) rfl rfl (of_decide_eq_true rfl) rfl rfl rfl rfl⟩

end Vcass.Virtio.Transmit
