import Vcass.Virtio.Delivery

/-!
# Flow control of the send queue

`start_xmit` frees the buffers that came back and sends a packet. If there are few free descriptors left then it stops
the queue, asks for an interrupt when most of what is out came back, and looks whether that much came back in between.
`put_descriptors` gives a buffer back, and if an interrupt is wanted it calls `vca_vring_interrupt`, which calls
`skb_xmit_done`, which disables interrupts and wakes the queue. It holds a lock meanwhile, and `start_xmit` another
one, so that there is one context of each kind.

A queue that is stopped is woken: as long as it is stopped a buffer is still to come back, or the wake-up is on its
way.
-/

namespace Vcass.Virtio.Transmit

open Conc RingCounter Virtqueue HostRing Transport

/-- `MAX_SKB_FRAGS`, for pages of 4096 bytes. -/
def maxSkbFrags : ℕ := 17

/-- Where `start_xmit` stands. -/
inductive Xmit
  | idle
  /-- In the first call of `free_old_xmit_skbs`. -/
  | freeing
  /-- Before `vca_virtqueue_add_outbuf`. -/
  | sending
  /-- In there, before the write of the index. -/
  | filled
  | sent
  /-- Behind `netif_stop_subqueue`. -/
  | stopping
  /-- In `vca_virtqueue_enable_cb_delayed`, behind the barrier. -/
  | armed
  /-- In the second call of `free_old_xmit_skbs`. -/
  | refreeing
  /-- Behind it. -/
  | freed
  /-- Behind `netif_start_subqueue`. -/
  | restarted
  | kicking
  deriving DecidableEq, Repr

/-- Where `put_descriptors` stands. -/
inductive Notifier
  | unlocked
  /-- In `vca_vringh_complete_kern`, before the write of the index. -/
  | completing
  | completed
  /-- Before `vca_vring_interrupt`. -/
  | interrupting
  /-- In `skb_xmit_done`. -/
  | callback
  /-- Behind `vca_virtqueue_disable_cb`. -/
  | waking
  deriving DecidableEq, Repr

/-- A send queue. `stopped` is `__QUEUE_STATE_DRV_XOFF`, and `dropped` is `tx_dropped`. -/
structure SendQueue (τ : Type) where
  ring : Sys τ
  xmit : Xmit
  stopped : Bool
  dropped : ℕ
  notifier : Notifier

inductive Label (τ : Type)
  | startXmit
  | readUsed
  | getBuf
  | addOutbuf (sg : List Sg) (data : τ) (env : AddEnv)
  | publishAvail
  | stopSubqueue
  | enableCbDelayed
  | testUsed
  | startSubqueue
  | disableCb
  | kick (notifyOk : Bool) (availEvent : ℕ)
  /-- A step of `vca_vringh_getdesc_kern`. -/
  | readAvail
  | getHead
  | walk
  | complete (p len : ℕ)
  | publishUsed
  | needNotify
  | interrupt
  | skbXmitDone
  | wakeSubqueue

variable {τ : Type} {riov wiov : Option Kiov} {s s' : SendQueue τ}

namespace SendQueue

/-- `vca_virtqueue_get_buf` in `free_old_xmit_skbs`, which returns if it is `NULL`. -/
def freed (s : SendQueue τ) (ring : Sys τ) : SendQueue τ :=
  { s with
    ring := ring
    xmit := if s.ring.returned.length < ring.returned.length then s.xmit
      else if s.xmit = .freeing then .sending else .freed }

/-- A packet that does not go out is freed. -/
def added (s : SendQueue τ) (ring : Sys τ) : SendQueue τ :=
  if ring.pc = .filled then { s with ring := ring, xmit := .filled }
  else { s with ring := ring, xmit := .idle, dropped := s.dropped + 1 }

def stopSubqueue (s : SendQueue τ) : SendQueue τ :=
  if s.ring.driver.numFree < 2 + maxSkbFrags then { s with stopped := true, xmit := .stopping }
  else { s with xmit := .kicking }

/-- `vca_virtqueue_enable_cb_delayed`, behind the barrier. -/
def testUsed (s : SendQueue τ) : SendQueue τ :=
  if (vcaVirtqueueEnableCbDelayed s.ring.driver s.ring.used.idx).1 then { s with xmit := .kicking }
  else { s with xmit := .refreeing }

def startSubqueue (s : SendQueue τ) : SendQueue τ :=
  if 2 + maxSkbFrags ≤ s.ring.driver.numFree then { s with stopped := false, xmit := .restarted }
  else { s with xmit := .kicking }

/-- `vca_vringh_need_notify_kern`. -/
def needNotify (s : SendQueue τ) (ring : Sys τ) : SendQueue τ :=
  { s with
    ring := ring
    notifier :=
      if (vringhNeedNotify s.ring.vrh s.ring.driver.availFlags s.ring.driver.usedEvent).1 then .interrupting
      else .unlocked }

/-- `vca_vring_interrupt`. -/
def interrupt (s : SendQueue τ) : SendQueue τ :=
  if !moreUsed s.ring.driver ⟨s.ring.used.idx, s.ring.used.ring⟩ then { s with notifier := .unlocked }
  else if s.ring.driver.broken then { s with notifier := .unlocked }
  else { s with notifier := .callback }

end SendQueue

/-- A step, if it is enabled. -/
def step (riov wiov : Option Kiov) (s : SendQueue τ) : Label τ → Option (SendQueue τ)
  | .startXmit => if s.xmit = .idle ∧ s.stopped = false then some { s with xmit := .freeing } else none
  | .readUsed =>
    if s.xmit = .freeing ∨ s.xmit = .refreeing then
      (Transport.step riov wiov s.ring .readUsed).map fun ring ↦ { s with ring := ring }
    else none
  | .getBuf =>
    if s.xmit = .freeing ∨ s.xmit = .refreeing then (Transport.step riov wiov s.ring .getBuf).map s.freed else none
  | .addOutbuf sg data env =>
    if s.xmit = .sending then (Transport.step riov wiov s.ring (.addSgs [sg] [] data env)).map s.added else none
  | .publishAvail =>
    if s.xmit = .filled then
      (Transport.step riov wiov s.ring .publishAvail).map fun ring ↦ { s with ring := ring, xmit := .sent }
    else none
  | .stopSubqueue => if s.xmit = .sent then some s.stopSubqueue else none
  | .enableCbDelayed =>
    if s.xmit = .stopping then
      (Transport.step riov wiov s.ring .enableCbDelayed).map fun ring ↦ { s with ring := ring, xmit := .armed }
    else none
  | .testUsed => if s.xmit = .armed then some s.testUsed else none
  | .startSubqueue => if s.xmit = .freed then some s.startSubqueue else none
  | .disableCb =>
    if s.xmit = .restarted then
      (Transport.step riov wiov s.ring .disableCb).map fun ring ↦ { s with ring := ring, xmit := .kicking }
    else none
  | .kick notifyOk availEvent =>
    if s.xmit = .kicking then
      (Transport.step riov wiov s.ring (.kick notifyOk availEvent)).map fun ring ↦
        { s with ring := ring, xmit := .idle }
    else none
  | .readAvail => (Transport.step riov wiov s.ring .readAvail).map fun ring ↦ { s with ring := ring }
  | .getHead => (Transport.step riov wiov s.ring .getHead).map fun ring ↦ { s with ring := ring }
  | .walk => (Transport.step riov wiov s.ring .walk).map fun ring ↦ { s with ring := ring }
  | .complete p len =>
    if s.notifier = .unlocked then
      (Transport.step riov wiov s.ring (.complete p len)).map fun ring ↦
        { s with ring := ring, notifier := .completing }
    else none
  | .publishUsed =>
    if s.notifier = .completing then
      (Transport.step riov wiov s.ring .publishUsed).map fun ring ↦ { s with ring := ring, notifier := .completed }
    else none
  | .needNotify =>
    if s.notifier = .completed then (Transport.step riov wiov s.ring .needNotify).map s.needNotify else none
  | .interrupt => if s.notifier = .interrupting then some s.interrupt else none
  | .skbXmitDone =>
    if s.notifier = .callback then
      (Transport.step riov wiov s.ring .disableCb).map fun ring ↦ { s with ring := ring, notifier := .waking }
    else none
  | .wakeSubqueue => if s.notifier = .waking then some { s with stopped := false, notifier := .unlocked } else none

/-- What `start_xmit` sees to. -/
def Label.Allowed (riov wiov : Option Kiov) (s : SendQueue τ) : Label τ → Prop
  | .addOutbuf sg data env => (Transport.Label.addSgs [sg] [] data env).Allowed riov wiov s.ring
  | _ => True

instance (riov wiov : Option Kiov) (s : SendQueue τ) (l : Label τ) : Decidable (l.Allowed riov wiov s) :=
  match l with
  | .addOutbuf sg data env =>
    inferInstanceAs (Decidable ((Transport.Label.addSgs [sg] [] data env).Allowed riov wiov s.ring))
  | .startXmit => inferInstanceAs (Decidable True)
  | .readUsed => inferInstanceAs (Decidable True)
  | .getBuf => inferInstanceAs (Decidable True)
  | .publishAvail => inferInstanceAs (Decidable True)
  | .stopSubqueue => inferInstanceAs (Decidable True)
  | .enableCbDelayed => inferInstanceAs (Decidable True)
  | .testUsed => inferInstanceAs (Decidable True)
  | .startSubqueue => inferInstanceAs (Decidable True)
  | .disableCb => inferInstanceAs (Decidable True)
  | .kick .. => inferInstanceAs (Decidable True)
  | .readAvail => inferInstanceAs (Decidable True)
  | .getHead => inferInstanceAs (Decidable True)
  | .walk => inferInstanceAs (Decidable True)
  | .complete .. => inferInstanceAs (Decidable True)
  | .publishUsed => inferInstanceAs (Decidable True)
  | .needNotify => inferInstanceAs (Decidable True)
  | .interrupt => inferInstanceAs (Decidable True)
  | .skbXmitDone => inferInstanceAs (Decidable True)
  | .wakeSubqueue => inferInstanceAs (Decidable True)

/-- A queue before the first packet. -/
def init (num : ℕ) (callback indirect event dmaMap : Bool) : Option (SendQueue τ) :=
  (Transport.init num callback indirect event dmaMap).map fun ring ↦ ⟨ring, .idle, false, 0, .unlocked⟩

end Vcass.Virtio.Transmit
