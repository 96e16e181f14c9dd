import Vcass.Lib.RingBuffer
import Vcass.Virtio.Decode

/-!
# Buffers between the driver and the host

The driver of a virtqueue and the host take turns at any point where one of them may see what the other has written:
the driver writes the descriptors and the slot of the available ring before the index, and the host reads them in the
other order; the host writes the element of the used ring before the index, and the driver reads them in the other
order. The host walks over a chain one descriptor at a time.

`step` is a step of one of them. In every run the host fetches the buffers that were added, in order and with the
ranges that were added, and the driver gets back the buffers that were completed, in order and with the lengths that
the host wrote.

## What the two rely on

The callers of `virtqueue_add` as in `Op.Allowed`; the host asks for vectors of the kinds that the buffers have, finds
memory for them, and completes what it has fetched and not completed before.
-/

namespace Vcass.Virtio.Transport

open Conc Virtqueue HostRing

/-- Where the driver stands: between two calls, in `virtqueue_add` before the index is written, or in
`vca_virtqueue_get_buf` behind the read of the index. -/
inductive DriverPc
  | idle
  | filled
  | seen (usedIdx : ℕ)
  deriving DecidableEq, Repr

/-- Where `vca_vringh_getdesc_kern` stands: not called, behind the read of the index, or on a chain. -/
inductive HostPc
  | idle
  | seen (availIdx : ℕ)
  | walking (head : ℕ) (w : Walk)

/-- What the host has fetched. -/
structure Fetched where
  head : ℕ
  riov : Option (List Kvec)
  wiov : Option (List Kvec)
  deriving DecidableEq, Repr

/-- The two sides and the memory that they share: the descriptors, the tables and the slots of the available ring are
those of `driver`, the index of the available ring is `availIdx`. `pendingIdx` is the index of the used ring that is
still to be written. The lists say what happened so far; a buffer is known by its number, from zero on. `holding` are
those that the host has fetched and not completed. -/
structure Sys (τ : Type) where
  driver : VringVirtqueue τ
  pc : DriverPc
  availIdx : ℕ
  vrh : Vringh
  host : HostPc
  used : UsedRing
  pendingIdx : Option ℕ
  added : List (τ × List Entry)
  fetched : List Fetched
  holding : List ℕ
  completed : List (ℕ × ℕ)
  returned : List (τ × ℕ)
  /-- A `BUG_ON` or an endless loop of the driver, or an error of the host. -/
  stopped : Bool
  notifyFailed : Bool

inductive Label (τ : Type)
  | addSgs (outSgs inSgs : List (List Sg)) (data : τ) (env : AddEnv)
  | publishAvail
  | kick (notifyOk : Bool) (availEvent : ℕ)
  | disableCb
  | enableCbPrepare
  | enableCbDelayed
  | readUsed
  | getBuf
  | readAvail
  | getHead
  | walk
  | complete (p len : ℕ)
  | publishUsed
  | needNotify

variable {τ : Type}

/-- The descriptor at an index of a table. -/
def descAt (vq : VringVirtqueue τ) (table : Option ℕ) (i : ℕ) : Desc :=
  match table with
  | none => vq.desc i
  | some a => ((vq.tables a).getD fun _ ↦ ⟨0, 0, 0, 0⟩) i

namespace Sys

def addSgs (s : Sys τ) (outSgs inSgs : List (List Sg)) (data : τ) (env : AddEnv) : Sys τ :=
  let s := { s with notifyFailed := s.notifyFailed || !env.notifyOk }
  match vcaVirtqueueAddSgs s.driver outSgs inSgs data env with
  | (.ok, vq) =>
    { s with driver := vq, pc := .filled, added := s.added ++ [(data, entriesOf outSgs inSgs)] }
  | (.bug, vq) => { s with driver := vq, stopped := true }
  | (_, vq) => { s with driver := vq }

/-- `vca_virtqueue_get_buf`, behind the read of the index. -/
def getBuf (s : Sys τ) (usedIdx : ℕ) : Sys τ :=
  match vcaVirtqueueGetBuf s.driver ⟨usedIdx, s.used.ring⟩ with
  | some (some (data, len), vq) => { s with driver := vq, pc := .idle, returned := s.returned ++ [(data, len)] }
  | some (none, vq) => { s with driver := vq, pc := .idle }
  | none => { s with stopped := true }

/-- `__vringh_get_head`, behind the read of the index. -/
def getHead (riov wiov : Option Kiov) (s : Sys τ) (availIdx : ℕ) : Sys τ :=
  match vringhGetHead s.vrh ⟨availIdx, s.driver.availRing⟩ with
  | .error _ => { s with stopped := true }
  | .ok (none, vrh) => { s with vrh := vrh, host := .idle }
  | .ok (some head, vrh) => { s with vrh := vrh, host := .walking head (Walk.start s.vrh.num head riov wiov) }

/-- A round of `__vringh_iov`. -/
def walk (s : Sys τ) (head : ℕ) (w : Walk) : Sys τ :=
  match round s.vrh.num (descAt s.driver w.table w.i) true w with
  | .go w => { s with host := .walking head w }
  | .done w => { s with
      host := .idle
      fetched := s.fetched ++ [⟨head, w.riov.map Kiov.iov, w.wiov.map Kiov.iov⟩]
      holding := s.holding ++ [s.fetched.length] }
  | .fail _ _ => { s with stopped := true }

/-- `__vringh_complete` before the write of the index. -/
def complete (s : Sys τ) (p head len : ℕ) : Sys τ :=
  let (vrh, used) := vcaVringhCompleteKern s.vrh s.used head len
  { s with
    vrh := vrh
    used := { s.used with ring := used.ring }
    pendingIdx := some used.idx
    holding := s.holding.erase p
    completed := s.completed ++ [(p, len)] }

end Sys

/-- A step, if it is enabled. -/
def step (riov wiov : Option Kiov) (s : Sys τ) : Label τ → Option (Sys τ)
  | .addSgs outSgs inSgs data env => if s.pc = .idle then some (s.addSgs outSgs inSgs data env) else none
  | .publishAvail => if s.pc = .filled then some { s with pc := .idle, availIdx := s.driver.availIdx } else none
  | .kick notifyOk availEvent => if s.pc = .idle then some { s with
      driver := (vcaVirtqueueKick s.driver notifyOk availEvent s.used.flags).2
      notifyFailed := s.notifyFailed || !notifyOk } else none
  | .disableCb => some { s with driver := vcaVirtqueueDisableCb s.driver }
  | .enableCbPrepare =>
    if s.pc = .idle then some { s with driver := (vcaVirtqueueEnableCbPrepare s.driver).2 } else none
  | .enableCbDelayed =>
    if s.pc = .idle then some { s with driver := (vcaVirtqueueEnableCbDelayed s.driver s.used.idx).2 } else none
  | .readUsed => if s.pc = .idle then some { s with pc := .seen s.used.idx } else none
  | .getBuf =>
    match s.pc with
    | .seen usedIdx => some (s.getBuf usedIdx)
    | _ => none
  | .readAvail =>
    match s.host with
    | .idle => some { s with host := .seen s.availIdx }
    | _ => none
  | .getHead =>
    match s.host with
    | .seen availIdx => some (s.getHead riov wiov availIdx)
    | _ => none
  | .walk =>
    match s.host with
    | .walking head w => some (s.walk head w)
    | _ => none
  | .complete p len =>
    if p ∈ s.holding ∧ s.pendingIdx = none then (s.fetched[p]?).map fun f ↦ s.complete p f.head len else none
  | .publishUsed => (s.pendingIdx).map fun idx ↦ { s with used := { s.used with idx := idx }, pendingIdx := none }
  | .needNotify =>
    if s.pendingIdx = none then
      some { s with vrh := (vringhNeedNotify s.vrh s.driver.availFlags s.driver.usedEvent).2 }
    else none

/-- What the callers of `virtqueue_add` see to. -/
def Label.Allowed (riov wiov : Option Kiov) (s : Sys τ) : Label τ → Prop
  | .addSgs outSgs inSgs data env => (Op.addSgs outSgs inSgs data env).Allowed s.driver ∧
      Given riov wiov (entriesOf outSgs inSgs)
  | _ => True

instance (riov wiov : Option Kiov) (s : Sys τ) (l : Label τ) : Decidable (l.Allowed riov wiov s) :=
  match l with
  | .addSgs .. => inferInstanceAs (Decidable (_ ∧ _))
  | .publishAvail => inferInstanceAs (Decidable True)
  | .kick .. => inferInstanceAs (Decidable True)
  | .disableCb => inferInstanceAs (Decidable True)
  | .enableCbPrepare => inferInstanceAs (Decidable True)
  | .enableCbDelayed => inferInstanceAs (Decidable True)
  | .readUsed => inferInstanceAs (Decidable True)
  | .getBuf => inferInstanceAs (Decidable True)
  | .readAvail => inferInstanceAs (Decidable True)
  | .getHead => inferInstanceAs (Decidable True)
  | .walk => inferInstanceAs (Decidable True)
  | .complete .. => inferInstanceAs (Decidable True)
  | .publishUsed => inferInstanceAs (Decidable True)
  | .needNotify => inferInstanceAs (Decidable True)

/-- A queue on which nothing was done yet. -/
def init (num : ℕ) (callback indirect event dmaMap : Bool) : Option (Sys τ) :=
  match vcaVringNewVirtqueue num callback indirect event dmaMap, vcaVringhInitKern num event with
  | some driver, .ok vrh =>
    some ⟨driver, .idle, 0, vrh, .idle, ⟨0, 0, fun _ ↦ ⟨0, 0⟩, 0⟩, none, [], [], [], [], [], false, false⟩
  | _, _ => none

/-! ## Whose step it is -/

/-- A step of the host. -/
def Label.ofHost : Label τ → Bool
  | .readAvail => true
  | .getHead => true
  | .walk => true
  | .complete .. => true
  | .publishUsed => true
  | .needNotify => true
  | _ => false

/-- A step in which the host gives a buffer back. -/
def Label.givesBack : Label τ → Bool
  | .complete .. => true
  | .publishUsed => true
  | _ => false

variable {riov wiov : Option Kiov} {s s' : Sys τ} {l : Label τ}

theorem getHead_frame (s : Sys τ) (idx : ℕ) : (s.getHead riov wiov idx).driver = s.driver ∧
    (s.getHead riov wiov idx).used = s.used ∧ (s.getHead riov wiov idx).pendingIdx = s.pendingIdx := by
  rw [Sys.getHead]
  split <;> exact ⟨rfl, rfl, rfl⟩

theorem walk_frame (s : Sys τ) (head : ℕ) (w : Walk) : (s.walk head w).driver = s.driver ∧
    (s.walk head w).used = s.used ∧ (s.walk head w).pendingIdx = s.pendingIdx := by
  rw [Sys.walk]
  split <;> exact ⟨rfl, rfl, rfl⟩

theorem addSgs_frame (s : Sys τ) (outSgs inSgs : List (List Sg)) (data : τ) (env : AddEnv) :
    (s.addSgs outSgs inSgs data env).used = s.used ∧
      (s.addSgs outSgs inSgs data env).pendingIdx = s.pendingIdx := by
  rw [Sys.addSgs]
  dsimp only
  split <;> exact ⟨rfl, rfl⟩

theorem getBuf_frame (s : Sys τ) (idx : ℕ) :
    (s.getBuf idx).used = s.used ∧ (s.getBuf idx).pendingIdx = s.pendingIdx := by
  rw [Sys.getBuf]
  split <;> exact ⟨rfl, rfl⟩

theorem step_getBuf : step riov wiov s .getBuf = some s' ↔ ∃ idx, s.pc = .seen idx ∧ s.getBuf idx = s' := by
  cases hpc : s.pc <;> simp [step, hpc]

theorem step_readAvail : step riov wiov s .readAvail = some s' ↔
    s.host = .idle ∧ { s with host := .seen s.availIdx } = s' := by
  cases hpc : s.host <;> simp [step, hpc]

theorem step_getHead : step riov wiov s .getHead = some s' ↔
    ∃ idx, s.host = .seen idx ∧ s.getHead riov wiov idx = s' := by
  cases hpc : s.host <;> simp [step, hpc]

theorem step_walk : step riov wiov s .walk = some s' ↔ ∃ head w, s.host = .walking head w ∧ s.walk head w = s' := by
  cases hpc : s.host <;> simp [step, hpc]

theorem driver_eq_of_host (hl : l.ofHost = true) (h : step riov wiov s l = some s') : s'.driver = s.driver := by
  cases l with
  | readAvail =>
    obtain ⟨-, rfl⟩ := step_readAvail.mp h
    rfl
  | getHead =>
    obtain ⟨idx, -, rfl⟩ := step_getHead.mp h
    exact (getHead_frame s idx).1
  | walk =>
    obtain ⟨head, w, -, rfl⟩ := step_walk.mp h
    exact (walk_frame s head w).1
  | complete p len =>
    obtain ⟨-, hs'⟩ := Option.ite_none_right_eq_some.mp h
    obtain ⟨f, -, rfl⟩ := Option.map_eq_some_iff.mp hs'
    rfl
  | publishUsed =>
    obtain ⟨idx, -, rfl⟩ := Option.map_eq_some_iff.mp h
    rfl
  | needNotify =>
    obtain ⟨-, hs'⟩ := Option.ite_none_right_eq_some.mp h
    cases hs'
    rfl
  | _ => exact absurd hl Bool.false_ne_true

theorem used_eq_of_not (hl : l.givesBack = false) (h : step riov wiov s l = some s') :
    s'.used = s.used ∧ s'.pendingIdx = s.pendingIdx := by
  cases l with
  | getBuf =>
    obtain ⟨idx, -, rfl⟩ := step_getBuf.mp h
    exact getBuf_frame s idx
  | readAvail =>
    obtain ⟨-, rfl⟩ := step_readAvail.mp h
    exact ⟨rfl, rfl⟩
  | getHead =>
    obtain ⟨idx, -, rfl⟩ := step_getHead.mp h
    exact (getHead_frame s idx).2
  | walk =>
    obtain ⟨head, w, -, rfl⟩ := step_walk.mp h
    exact (walk_frame s head w).2
  | addSgs outSgs inSgs data env =>
    obtain ⟨-, hs'⟩ := Option.ite_none_right_eq_some.mp h
    cases hs'
    exact addSgs_frame s ..
  | disableCb =>
    cases h
    exact ⟨rfl, rfl⟩
  | complete p len => exact absurd hl.symm Bool.false_ne_true
  | publishUsed => exact absurd hl.symm Bool.false_ne_true
  | _ =>
    obtain ⟨-, hs'⟩ := Option.ite_none_right_eq_some.mp h
    cases hs'
    exact ⟨rfl, rfl⟩

/-- The driver does not write what is the host's. -/
theorem vrh_eq_of_driver (hl : l.ofHost = false) (h : step riov wiov s l = some s') :
    s'.vrh = s.vrh ∧ s'.completed = s.completed := by
  cases l with
  | addSgs outSgs inSgs data env =>
    obtain ⟨-, hs'⟩ := Option.ite_none_right_eq_some.mp h
    cases hs'
    rw [Sys.addSgs]
    dsimp only
    split <;> exact ⟨rfl, rfl⟩
  | getBuf =>
    obtain ⟨idx, -, rfl⟩ := step_getBuf.mp h
    rw [Sys.getBuf]
    split <;> exact ⟨rfl, rfl⟩
  | disableCb =>
    cases h
    exact ⟨rfl, rfl⟩
  | publishAvail =>
    obtain ⟨-, hs'⟩ := Option.ite_none_right_eq_some.mp h
    cases hs'
    exact ⟨rfl, rfl⟩
  | kick =>
    obtain ⟨-, hs'⟩ := Option.ite_none_right_eq_some.mp h
    cases hs'
    exact ⟨rfl, rfl⟩
  | enableCbPrepare =>
    obtain ⟨-, hs'⟩ := Option.ite_none_right_eq_some.mp h
    cases hs'
    exact ⟨rfl, rfl⟩
  | enableCbDelayed =>
    obtain ⟨-, hs'⟩ := Option.ite_none_right_eq_some.mp h
    cases hs'
    exact ⟨rfl, rfl⟩
  | readUsed =>
    obtain ⟨-, hs'⟩ := Option.ite_none_right_eq_some.mp h
    cases hs'
    exact ⟨rfl, rfl⟩
  | _ => exact absurd hl.symm Bool.false_ne_true

theorem added_eq_of_host (hl : l.ofHost = true) (h : step riov wiov s l = some s') :
    s'.added = s.added ∧ s'.returned = s.returned ∧ s'.pc = s.pc ∧ s'.notifyFailed = s.notifyFailed := by
  cases l with
  | readAvail =>
    obtain ⟨-, rfl⟩ := step_readAvail.mp h
    exact ⟨rfl, rfl, rfl, rfl⟩
  | getHead =>
    obtain ⟨idx, -, rfl⟩ := step_getHead.mp h
    rw [Sys.getHead]
    split <;> exact ⟨rfl, rfl, rfl, rfl⟩
  | walk =>
    obtain ⟨head, w, -, rfl⟩ := step_walk.mp h
    rw [Sys.walk]
    split <;> exact ⟨rfl, rfl, rfl, rfl⟩
  | complete p len =>
    obtain ⟨-, hs'⟩ := Option.ite_none_right_eq_some.mp h
    obtain ⟨f, -, rfl⟩ := Option.map_eq_some_iff.mp hs'
    exact ⟨rfl, rfl, rfl, rfl⟩
  | publishUsed =>
    obtain ⟨idx, -, rfl⟩ := Option.map_eq_some_iff.mp h
    exact ⟨rfl, rfl, rfl, rfl⟩
  | needNotify =>
    obtain ⟨-, hs'⟩ := Option.ite_none_right_eq_some.mp h
    cases hs'
    exact ⟨rfl, rfl, rfl, rfl⟩
  | _ => exact absurd hl Bool.false_ne_true

end Vcass.Virtio.Transport
