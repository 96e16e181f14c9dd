import Vcass.Virtio.Delivery

/-!
# Wake-ups of the receive queue

`virtnet_poll` takes the buffers that have come back, and when there are none left it gives `NAPI_STATE_SCHED` back
and looks once more. The thread of `vop_spin_for_used_descriptors` gives buffers back, as many as it finds, and calls
`vca_vring_interrupt`, which calls `skb_recv_done`, which schedules the poll if the bit is clear. `refill_work` takes
the bit away for a while and then schedules the poll itself.

A buffer that comes back while the bit is set is not announced, so it is the second look that must find it. No buffer
is left behind: if there is one that the driver has not got yet, somebody is about to look.

## Contexts

The context that has set the bit is its owner, and goes on as such. Behind `napi_complete` a call of `virtnet_poll` is
a context of its own, which may be overtaken by the next one, so there may be any number of them.
-/

namespace Vcass.Virtio.Receive

open Conc Virtqueue HostRing Transport

/-- The context that holds `NAPI_STATE_SCHED`, if one does. -/
inductive Owner
  | none
  /-- Behind `napi_schedule_prep`. -/
  | prepared
  /-- Behind `vca_virtqueue_disable_cb`. -/
  | masked
  /-- Behind `__napi_schedule`, or in `virtnet_poll`. -/
  | polling
  /-- Behind `vca_virtqueue_enable_cb_prepare`. -/
  | armed (r : ℕ)
  /-- Behind `napi_disable`. -/
  | disabled
  deriving DecidableEq, Repr

/-- Where `vop_spin_for_used_descriptors` stands. -/
inductive Notifier
  | waiting
  /-- In `vop_kvec_buf_consume`. -/
  | consuming
  /-- Before `vca_vring_interrupt`. -/
  | interrupting
  /-- In `skb_recv_done`. -/
  | callback
  deriving DecidableEq, Repr

/-- A receive queue. `disabling` is `NAPI_STATE_DISABLE`. `checks` are the calls of `virtnet_poll` behind
`napi_complete`, with what `vca_virtqueue_enable_cb_prepare` returned, and `preps` counts the contexts that call
`napi_schedule_prep` next. -/
structure ReceiveQueue (τ : Type) where
  ring : Sys τ
  owner : Owner
  disabling : Bool
  checks : List ℕ
  preps : ℕ
  notifier : Notifier

inductive Label (τ : Type)
  | ring (l : Transport.Label τ)
  /-- `wait_for_used_desc` returns. -/
  | consume
  /-- `vop_kvec_buf_consume` returns. -/
  | consumed
  | interrupt
  | skbRecvDone
  | disableCb
  | napiSchedule
  | enableCbPrepare
  | napiComplete
  /-- `vca_virtqueue_poll`. -/
  | poll (r : ℕ)
  | napiSchedulePrep
  | napiDisable
  /-- `napi_disable` returns. -/
  | napiDisabled
  | napiEnable

variable {τ : Type} {riov wiov : Option Kiov} {s s' : ReceiveQueue τ}

namespace ReceiveQueue

/-- Who does a step of the ring: buffers are posted by `virtnet_poll` or while the poll is disabled, taken by
`virtnet_poll`, and given back by `vop_kvec_buf_consume`. -/
def mayStep (s : ReceiveQueue τ) : Transport.Label τ → Bool
  | .addSgs .. => s.owner = .polling ∨ s.owner = .disabled
  | .publishAvail => s.owner = .polling ∨ s.owner = .disabled
  | .kick .. => s.owner = .polling ∨ s.owner = .disabled
  | .readUsed => s.owner = .polling
  | .getBuf => s.owner = .polling
  | .readAvail => true
  | .getHead => true
  | .walk => true
  | .complete .. => s.notifier = .consuming
  | .publishUsed => s.notifier = .consuming
  | .disableCb => false
  | .enableCbPrepare => false
  | .enableCbDelayed => false
  | .needNotify => false

/-- `napi_schedule_prep`. -/
def prep (s : ReceiveQueue τ) : ReceiveQueue τ :=
  if s.disabling = false ∧ s.owner = .none then { s with owner := .prepared } else s

/-- `vca_vring_interrupt`. -/
def interrupt (s : ReceiveQueue τ) : ReceiveQueue τ :=
  if !moreUsed s.ring.driver ⟨s.ring.used.idx, s.ring.used.ring⟩ then { s with notifier := .waiting }
  else if s.ring.driver.broken then { s with notifier := .waiting }
  else { s with notifier := .callback }

/-- `vca_virtqueue_poll`. -/
def poll (s : ReceiveQueue τ) (r : ℕ) : ReceiveQueue τ :=
  { s with
    checks := s.checks.erase r
    preps := if vcaVirtqueuePoll r s.ring.used.idx then s.preps + 1 else s.preps }

end ReceiveQueue

/-- A step, if it is enabled. -/
def step (riov wiov : Option Kiov) (s : ReceiveQueue τ) : Label τ → Option (ReceiveQueue τ)
  | .ring l => if s.mayStep l then (Transport.step riov wiov s.ring l).map fun ring ↦ { s with ring := ring } else none
  | .consume => if s.notifier = .waiting then some { s with notifier := .consuming } else none
  | .consumed =>
    if s.notifier = .consuming ∧ s.ring.pendingIdx = none then some { s with notifier := .interrupting } else none
  | .interrupt => if s.notifier = .interrupting then some s.interrupt else none
  | .skbRecvDone => if s.notifier = .callback then some { s.prep with notifier := .waiting } else none
  | .disableCb =>
    if s.owner = .prepared then
      (Transport.step riov wiov s.ring .disableCb).map fun ring ↦ { s with ring := ring, owner := .masked }
    else none
  | .napiSchedule => if s.owner = .masked then some { s with owner := .polling } else none
  | .enableCbPrepare =>
    if s.owner = .polling then
      (Transport.step riov wiov s.ring .enableCbPrepare).map fun ring ↦
        { s with ring := ring, owner := .armed (vcaVirtqueueEnableCbPrepare s.ring.driver).1 }
    else none
  | .napiComplete =>
    match s.owner with
    | .armed r => some { s with owner := .none, checks := s.checks ++ [r] }
    | _ => none
  | .poll r => if r ∈ s.checks then some (s.poll r) else none
  | .napiSchedulePrep => if 0 < s.preps then some { s.prep with preps := s.preps - 1 } else none
  | .napiDisable => if s.disabling then none else some { s with disabling := true }
  | .napiDisabled =>
    if s.disabling ∧ s.owner = .none then some { s with owner := .disabled, disabling := false } else none
  | .napiEnable => if s.owner = .disabled then some { s with owner := .none, preps := s.preps + 1 } else none

/-- What the callers of `virtqueue_add` see to. -/
def Label.Allowed (riov wiov : Option Kiov) (s : ReceiveQueue τ) : Label τ → Prop
  | .ring l => l.Allowed riov wiov s.ring
  | _ => True

instance (riov wiov : Option Kiov) (s : ReceiveQueue τ) (l : Label τ) : Decidable (l.Allowed riov wiov s) :=
  match l with
  | .ring l => inferInstanceAs (Decidable (l.Allowed riov wiov s.ring))
  | .consume => inferInstanceAs (Decidable True)
  | .consumed => inferInstanceAs (Decidable True)
  | .interrupt => inferInstanceAs (Decidable True)
  | .skbRecvDone => inferInstanceAs (Decidable True)
  | .disableCb => inferInstanceAs (Decidable True)
  | .napiSchedule => inferInstanceAs (Decidable True)
  | .enableCbPrepare => inferInstanceAs (Decidable True)
  | .napiComplete => inferInstanceAs (Decidable True)
  | .poll _ => inferInstanceAs (Decidable True)
  | .napiSchedulePrep => inferInstanceAs (Decidable True)
  | .napiDisable => inferInstanceAs (Decidable True)
  | .napiDisabled => inferInstanceAs (Decidable True)
  | .napiEnable => inferInstanceAs (Decidable True)

/-- A queue before `virtnet_open`. -/
def init (num : ℕ) (callback indirect event dmaMap : Bool) : Option (ReceiveQueue τ) :=
  (Transport.init num callback indirect event dmaMap).map fun ring ↦ ⟨ring, .disabled, false, [], 0, .waiting⟩

/-! ## The invariant -/

/-- The driver has got all that came back. -/
def CaughtUp (s : Sys τ) : Prop := s.driver.broken = true ∨ s.driver.lastUsedIdx = s.used.idx

/-- If the bit is clear and the driver is behind somebody will see it. -/
def Watched (s : ReceiveQueue τ) : Prop :=
  s.owner = .none → CaughtUp s.ring ∨ s.notifier ≠ .waiting ∨ s.disabling = true ∨ 0 < s.preps ∨
    s.ring.driver.lastUsedIdx ∈ s.checks

structure Awake (p : Params) (riov wiov : Option Kiov) (s : ReceiveQueue τ) : Prop where
  traced : Traced p riov wiov s.ring
  watched : Watched s
  armed : ∀ r, s.owner = .armed r → r = s.ring.driver.lastUsedIdx
  written : s.notifier ≠ .consuming → s.ring.pendingIdx = none

variable {p : Params}

theorem ofHost_of_mayStep {l : Transport.Label τ} (hmay : s.mayStep l = true) (hpolling : s.owner ≠ .polling)
    (hdisabled : s.owner ≠ .disabled) : l.ofHost = true := by
  cases l with
  | addSgs => exact absurd (of_decide_eq_true hmay) (not_or.mpr ⟨hpolling, hdisabled⟩)
  | publishAvail => exact absurd (of_decide_eq_true hmay) (not_or.mpr ⟨hpolling, hdisabled⟩)
  | kick => exact absurd (of_decide_eq_true hmay) (not_or.mpr ⟨hpolling, hdisabled⟩)
  | readUsed => exact absurd (of_decide_eq_true hmay) hpolling
  | getBuf => exact absurd (of_decide_eq_true hmay) hpolling
  | disableCb => exact absurd hmay Bool.false_ne_true
  | enableCbPrepare => exact absurd hmay Bool.false_ne_true
  | enableCbDelayed => exact absurd hmay Bool.false_ne_true
  | _ => rfl

theorem givesBack_of_mayStep {l : Transport.Label τ} (hmay : s.mayStep l = true) (hnotifier : s.notifier ≠ .consuming) :
    l.givesBack = false := by
  cases l with
  | complete => exact absurd (of_decide_eq_true hmay) hnotifier
  | publishUsed => exact absurd (of_decide_eq_true hmay) hnotifier
  | _ => rfl

theorem Awake.ring (h : Awake p riov wiov s) (hsize : RingSize p.num) {l : Transport.Label τ}
    (hl : l.Allowed riov wiov s.ring) (hmay : s.mayStep l = true) {ring : Sys τ}
    (hstep : Transport.step riov wiov s.ring l = some ring) : Awake p riov wiov { s with ring := ring } := by
  obtain ⟨buf, hinv⟩ := h.traced
  refine ⟨hinv.step hsize hl hstep, fun howner ↦ ?_, fun r howner ↦ ?_, fun hnotifier ↦ ?_⟩
  · have hdriver := driver_eq_of_host (ofHost_of_mayStep hmay (by rw [howner]; decide) (by rw [howner]; decide)) hstep
    by_cases hnotifier : s.notifier = .consuming
    · exact Or.inr (Or.inl (hnotifier ▸ by decide))
    · obtain ⟨hused, -⟩ := used_eq_of_not (givesBack_of_mayStep hmay hnotifier) hstep
      have hwatched := h.watched howner
      rw [CaughtUp, ← hdriver, ← hused] at hwatched
      exact hwatched
  · have hdriver := driver_eq_of_host
      (ofHost_of_mayStep hmay (by rw [howner]; rintro ⟨⟩) (by rw [howner]; rintro ⟨⟩)) hstep
    rw [hdriver]
    exact h.armed r howner
  · exact (used_eq_of_not (givesBack_of_mayStep hmay hnotifier) hstep).2.trans (h.written hnotifier)

/-- `napi_schedule_prep` sets the bit unless somebody else holds it or is about to. -/
theorem prep_cases (s : ReceiveQueue τ) :
    s.prep = { s with owner := .prepared } ∨ s.prep = s ∧ (s.owner ≠ .none ∨ s.disabling = true) := by
  rw [ReceiveQueue.prep]
  split_ifs with hfree
  · exact Or.inl rfl
  · refine Or.inr ⟨rfl, ?_⟩
    by_cases howner : s.owner = .none
    · exact Or.inr (Bool.eq_true_of_not_eq_false fun hdisabling ↦ hfree ⟨hdisabling, howner⟩)
    · exact Or.inl howner

theorem prep_notifier (s : ReceiveQueue τ) : s.prep.notifier = s.notifier := by
  rcases prep_cases s with hprep | ⟨hprep, -⟩ <;> rw [hprep]

/-- Behind `napi_schedule_prep` the bit is set or about to be, whatever the caller goes on to. -/
theorem Awake.prep (h : Awake p riov wiov s) {notifier : Notifier} {preps : ℕ}
    (hnotifier : notifier ≠ .consuming → s.notifier ≠ .consuming) :
    Awake p riov wiov { s.prep with notifier := notifier, preps := preps } := by
  rcases prep_cases s with hprep | ⟨hprep, hbusy⟩
  · rw [hprep]
    refine ⟨h.traced, fun howner ↦ ?_, fun r howner ↦ ?_, fun hn ↦ h.written (hnotifier hn)⟩
    · cases howner
    · cases howner
  · rw [hprep]
    refine ⟨h.traced, fun howner ↦ ?_, h.armed, fun hn ↦ h.written (hnotifier hn)⟩
    exact Or.inr (Or.inr (Or.inl (hbusy.resolve_left (not_not_intro howner))))

theorem Awake.interrupt (h : Awake p riov wiov s) (hnotifier : s.notifier = .interrupting) :
    Awake p riov wiov s.interrupt := by
  have hwritten := h.written (by rw [hnotifier]; decide)
  rw [ReceiveQueue.interrupt]
  split_ifs with hmore hbroken
  · refine ⟨h.traced, fun _ ↦ Or.inl (Or.inr ?_), h.armed, fun _ ↦ hwritten⟩
    rw [moreUsed, Bool.not_eq_true'] at hmore
    exact Decidable.of_not_not (of_decide_eq_false hmore)
  · exact ⟨h.traced, fun _ ↦ Or.inl (Or.inl hbroken), h.armed, fun _ ↦ hwritten⟩
  · exact ⟨h.traced, fun _ ↦ Or.inr (Or.inl (by rintro ⟨⟩)), h.armed, fun _ ↦ hwritten⟩

theorem Awake.poll (h : Awake p riov wiov s) (r : ℕ) : Awake p riov wiov (s.poll r) := by
  refine ⟨h.traced, fun howner ↦ ?_, h.armed, h.written⟩
  rw [ReceiveQueue.poll]
  dsimp only
  obtain ⟨buf, hinv⟩ := h.traced
  by_cases hpoll : vcaVirtqueuePoll r s.ring.used.idx = true
  · rw [if_pos hpoll]
    exact Or.inr (Or.inr (Or.inr (Or.inl (Nat.succ_pos _))))
  · have hidx : r % 2 ^ 16 = s.ring.used.idx := by
      rw [vcaVirtqueuePoll, decide_eq_true_eq] at hpoll
      exact Decidable.of_not_not hpoll
    have hlast : s.ring.driver.lastUsedIdx % 2 ^ 16 = s.ring.driver.lastUsedIdx := by
      rw [hinv.used.driverIdx_eq, Nat.mod_mod]
    rw [if_neg hpoll]
    rcases h.watched howner with hcaught | hnotifier | hdisabling | hpreps | hcheck
    · exact Or.inl hcaught
    · exact Or.inr (Or.inl hnotifier)
    · exact Or.inr (Or.inr (Or.inl hdisabling))
    · exact Or.inr (Or.inr (Or.inr (Or.inl hpreps)))
    · by_cases hsame : s.ring.driver.lastUsedIdx = r
      · exact Or.inl (Or.inr (hlast.symm.trans ((congrArg (· % 2 ^ 16) hsame).trans hidx)))
      · exact Or.inr (Or.inr (Or.inr (Or.inr ((List.mem_erase_of_ne hsame).mpr hcheck))))

theorem step_napiComplete : step riov wiov s .napiComplete = some s' ↔
    ∃ r, s.owner = .armed r ∧ { s with owner := .none, checks := s.checks ++ [r] } = s' := by
  cases howner : s.owner <;> simp [step, howner]

theorem Awake.step (h : Awake p riov wiov s) (hsize : RingSize p.num) {l : Label τ} (hl : l.Allowed riov wiov s)
    (hstep : step riov wiov s l = some s') : Awake p riov wiov s' := by
  cases l with
  | ring l =>
    obtain ⟨hmay, hs'⟩ := Option.ite_none_right_eq_some.mp hstep
    obtain ⟨ring, hring, rfl⟩ := Option.map_eq_some_iff.mp hs'
    exact h.ring hsize hl hmay hring
  | consume =>
    obtain ⟨hnotifier, hs'⟩ := Option.ite_none_right_eq_some.mp hstep
    cases hs'
    exact ⟨h.traced, fun _ ↦ Or.inr (Or.inl (by rintro ⟨⟩)), h.armed, fun hne ↦ absurd rfl hne⟩
  | consumed =>
    obtain ⟨⟨-, hpending⟩, hs'⟩ := Option.ite_none_right_eq_some.mp hstep
    cases hs'
    exact ⟨h.traced, fun _ ↦ Or.inr (Or.inl (by rintro ⟨⟩)), h.armed, fun _ ↦ hpending⟩
  | interrupt =>
    obtain ⟨hnotifier, hs'⟩ := Option.ite_none_right_eq_some.mp hstep
    cases hs'
    exact h.interrupt hnotifier
  | skbRecvDone =>
    obtain ⟨hnotifier, hs'⟩ := Option.ite_none_right_eq_some.mp hstep
    cases hs'
    exact h.prep fun _ ↦ hnotifier ▸ by decide
  | disableCb =>
    obtain ⟨-, hs'⟩ := Option.ite_none_right_eq_some.mp hstep
    obtain ⟨ring, hring, rfl⟩ := Option.map_eq_some_iff.mp hs'
    obtain ⟨buf, hinv⟩ := h.traced
    have hallowed : Transport.Label.Allowed riov wiov s.ring .disableCb := trivial
    refine ⟨hinv.step hsize hallowed hring, fun howner ↦ ?_, fun r howner ↦ ?_, fun hnotifier ↦ ?_⟩
    · cases howner
    · cases howner
    · exact (used_eq_of_not rfl hring).2.trans (h.written hnotifier)
  | napiSchedule =>
    obtain ⟨-, hs'⟩ := Option.ite_none_right_eq_some.mp hstep
    cases hs'
    refine ⟨h.traced, fun howner ↦ ?_, fun r howner ↦ ?_, h.written⟩
    · cases howner
    · cases howner
  | enableCbPrepare =>
    obtain ⟨-, hs'⟩ := Option.ite_none_right_eq_some.mp hstep
    obtain ⟨ring, hring, rfl⟩ := Option.map_eq_some_iff.mp hs'
    obtain ⟨buf, hinv⟩ := h.traced
    have hallowed : Transport.Label.Allowed riov wiov s.ring .enableCbPrepare := trivial
    refine ⟨hinv.step hsize hallowed hring, fun howner ↦ ?_, fun r howner ↦ ?_, fun hnotifier ↦ ?_⟩
    · cases howner
    · obtain ⟨-, hring'⟩ := Option.ite_none_right_eq_some.mp hring
      cases hring'
      cases howner
      rfl
    · exact (used_eq_of_not rfl hring).2.trans (h.written hnotifier)
  | napiComplete =>
    obtain ⟨r, howner, rfl⟩ := step_napiComplete.mp hstep
    refine ⟨h.traced, fun _ ↦ ?_, fun r' howner' ↦ ?_, h.written⟩
    · -- the owner becomes a context that looks once more, with the index at which the driver stands
      refine Or.inr (Or.inr (Or.inr (Or.inr (List.mem_append_right _ (List.mem_singleton.mpr ?_)))))
      exact (h.armed r howner).symm
    · cases howner'
  | poll r =>
    obtain ⟨-, hs'⟩ := Option.ite_none_right_eq_some.mp hstep
    cases hs'
    exact h.poll r
  | napiSchedulePrep =>
    obtain ⟨-, hs'⟩ := Option.ite_none_right_eq_some.mp hstep
    cases hs'
    exact h.prep fun hne ↦ prep_notifier s ▸ hne
  | napiDisable =>
    obtain ⟨-, hs'⟩ := Option.ite_none_left_eq_some.mp hstep
    cases hs'
    exact ⟨h.traced, fun _ ↦ Or.inr (Or.inr (Or.inl rfl)), h.armed, h.written⟩
  | napiDisabled =>
    obtain ⟨-, hs'⟩ := Option.ite_none_right_eq_some.mp hstep
    cases hs'
    refine ⟨h.traced, fun howner ↦ ?_, fun r howner ↦ ?_, h.written⟩
    · cases howner
    · cases howner
  | napiEnable =>
    obtain ⟨-, hs'⟩ := Option.ite_none_right_eq_some.mp hstep
    cases hs'
    refine ⟨h.traced, fun _ ↦ Or.inr (Or.inr (Or.inr (Or.inl (Nat.succ_pos _)))), fun r howner ↦ ?_, h.written⟩
    cases howner

/-! ## Runs -/

/-- Nobody is about to look. -/
def Quiet (s : ReceiveQueue τ) : Prop :=
  s.owner = .none ∧ s.notifier = .waiting ∧ s.disabling = false ∧ s.preps = 0 ∧ s.checks = []

theorem Awake.quiet (h : Awake p riov wiov s) (hquiet : Quiet s) : CaughtUp s.ring := by
  obtain ⟨howner, hnotifier, hdisabling, hpreps, hchecks⟩ := hquiet
  rcases h.watched howner with hcaught | hne | hdis | hpos | hmem
  · exact hcaught
  · exact absurd hnotifier hne
  · exact absurd (hdisabling.symm.trans hdis) Bool.false_ne_true
  · exact absurd hpreps (Nat.ne_of_gt hpos)
  · rw [hchecks] at hmem
    exact absurd hmem List.not_mem_nil

theorem awake_init {num : ℕ} {callback indirect event dmaMap : Bool} [Inhabited τ]
    (hinit : init num callback indirect event dmaMap = some s) (riov wiov : Option Kiov) :
    RingSize num ∧ Awake ⟨num, indirect, dmaMap⟩ riov wiov s := by
  obtain ⟨ring, hring, rfl⟩ := Option.map_eq_some_iff.mp hinit
  obtain ⟨hsize, hinv⟩ := inv_init hring riov wiov fun _ ↦ ⟨default, [], 0, [], none⟩
  refine ⟨hsize, ⟨_, hinv⟩, fun howner ↦ ?_, fun r howner ↦ ?_, fun _ ↦ ?_⟩
  · cases howner
  · cases howner
  · rw [Transport.init] at hring
    split at hring <;> cases hring
    rfl

/-- In every run, whatever the order in which the contexts go on: when nobody is about to look at the receive queue the
driver has got every buffer that the host has given back, unless the queue was broken by a notification that failed. -/
theorem caughtUp_run [Inhabited τ] {num : ℕ} {callback indirect event dmaMap : Bool} {ls : List (Label τ)}
    {t : ReceiveQueue τ} (hinit : init num callback indirect event dmaMap = some s)
    (hrun : exec (step riov wiov) s ls = some t)
    (hallowed : Along (fun s l _ ↦ l.Allowed riov wiov s) (step riov wiov) s ls) (hquiet : Quiet t)
    (hnotify : t.ring.notifyFailed = false) :
    t.ring.returned.length = t.ring.completed.length ∧ Delivered num dmaMap riov wiov t.ring := by
  obtain ⟨hsize, hawake⟩ := awake_init hinit riov wiov
  have h : Awake ⟨num, indirect, dmaMap⟩ riov wiov t := by
    refine exec_invariant ?_ hallowed hawake hrun
    rintro s l s' h hl hstep
    exact h.step hsize hl hstep
  obtain ⟨buf, hinv⟩ := h.traced
  have hdelivered := hinv.delivered hsize
  refine ⟨?_, hdelivered⟩
  rcases h.quiet hquiet with hbroken | hidx
  · exact absurd (hnotify.symm.trans (hdelivered.broken hbroken)) Bool.false_ne_true
  · exact hdelivered.usedEmpty (h.written (by rw [hquiet.2.1]; decide)) hidx

/-- A buffer comes back behind the last look of the loop, and `skb_recv_done` finds the bit set. -/
def sampleRace : List (Label ℕ) :=
  [.ring (.addSgs [] [[⟨4096, 0, 10⟩, ⟨8192, 0, 2030⟩]] 7 .plain), .ring .publishAvail, .napiEnable,
    .napiSchedulePrep, .disableCb, .napiSchedule, .ring .readAvail, .ring .getHead, .ring .walk, .ring .walk,
    .ring .readUsed, .ring .getBuf, .consume, .ring (.complete 0 70), .ring .publishUsed, .consumed, .interrupt,
    .skbRecvDone, .enableCbPrepare, .napiComplete, .poll 0, .napiSchedulePrep, .disableCb, .napiSchedule,
    .ring .readUsed, .ring .getBuf, .enableCbPrepare, .napiComplete, .poll 1]

theorem caughtUp_sampleRace : ∃ s t : ReceiveQueue ℕ, init 4 true false false false = some s ∧
    exec (step none (some ⟨[], 0, 0, 0, false⟩)) s sampleRace = some t ∧ t.ring.returned = [(7, 70)] ∧
      t.ring.returned.length = t.ring.completed.length ∧
        Delivered 4 false none (some ⟨[], 0, 0, 0, false⟩) t.ring :=
  ⟨_, _, rfl, rfl, rfl, @caughtUp_run ℕ none (some ⟨[], 0, 0, 0, false⟩) _ _ 4 true false false false sampleRace _
    rfl rfl (of_decide_eq_true rfl) ⟨rfl, rfl, rfl, rfl, rfl⟩ rfl⟩

end Vcass.Virtio.Receive
