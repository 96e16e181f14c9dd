import Vcass.Lib.Run
import Vcass.Virtio.Bookkeeping

/-!
# Runs of the driver

The driver calls the operations of a virtqueue one after the other, in any order. Between them the other side writes
to the used ring; a call that reads from there gets what it reads as an argument, so that a run has every value that
the other side may have written.

In every run the books stay sound. Hence no call meets a `BUG_ON` and every loop of `detach_buf` ends, and the tokens
that were added are those that came back together with those of the buffers that are out. The loop of
`free_unused_bufs`, after which no buffer is out, returns what is missing.

## Callers

They give at least one entry and at most as many as there are descriptors, and one list if it is mapped for DMA;
`kmalloc` finds memory that is not in use. This is what `Op.Allowed` asks.
-/

namespace Vcass.Virtio.Virtqueue

open Conc

variable {τ : Type}

/-- A virtqueue, with the tokens that were added and those that came back. `stopped` is a `BUG_ON`, or a loop that does
not end. -/
structure Driver (τ : Type) where
  vq : VringVirtqueue τ
  added : List τ
  returned : List τ
  stopped : Bool

inductive Op (τ : Type)
  | addSgs (outSgs inSgs : List (List Sg)) (data : τ) (env : AddEnv)
  | kick (notifyOk : Bool) (availEvent usedFlags : ℕ)
  | getBuf (used : Used)
  | detachUnusedBuf
  | disableCb
  | enableCbPrepare
  | enableCbDelayed (usedIdx : ℕ)

/-- What callers see to. -/
def Op.Allowed (vq : VringVirtqueue τ) : Op τ → Prop
  | .addSgs outSgs inSgs _ env => entriesOf outSgs inSgs ≠ [] ∧ (entriesOf outSgs inSgs).length ≤ vq.num ∧
      (∀ p ∈ env.table, vq.tables p.1 = none) ∧ (vq.dmaMap = true → outSgs.length + inSgs.length = 1)
  | _ => True

instance (vq : VringVirtqueue τ) (op : Op τ) : Decidable (op.Allowed vq) :=
  match op with
  | .addSgs .. => inferInstanceAs (Decidable (_ ∧ _ ∧ _ ∧ _))
  | .kick .. => inferInstanceAs (Decidable True)
  | .getBuf _ => inferInstanceAs (Decidable True)
  | .detachUnusedBuf => inferInstanceAs (Decidable True)
  | .disableCb => inferInstanceAs (Decidable True)
  | .enableCbPrepare => inferInstanceAs (Decidable True)
  | .enableCbDelayed _ => inferInstanceAs (Decidable True)

namespace Driver

def addSgs (s : Driver τ) (outSgs inSgs : List (List Sg)) (data : τ) (env : AddEnv) : Driver τ :=
  match vcaVirtqueueAddSgs s.vq outSgs inSgs data env with
  | (.ok, vq) => { s with vq := vq, added := s.added ++ [data] }
  | (.bug, vq) => { s with vq := vq, stopped := true }
  | (_, vq) => { s with vq := vq }

def getBuf (s : Driver τ) (used : Used) : Driver τ :=
  match vcaVirtqueueGetBuf s.vq used with
  | some (some (data, _), vq) => { s with vq := vq, returned := s.returned ++ [data] }
  | some (none, vq) => { s with vq := vq }
  | none => { s with stopped := true }

def detachUnusedBuf (s : Driver τ) : Driver τ :=
  match vcaVirtqueueDetachUnusedBuf s.vq with
  | some (.buf data vq) => { s with vq := vq, returned := s.returned ++ [data] }
  | some (.null vq) => { s with vq := vq }
  | some .bug => { s with stopped := true }
  | none => { s with stopped := true }

def apply (s : Driver τ) : Op τ → Driver τ
  | .addSgs outSgs inSgs data env => s.addSgs outSgs inSgs data env
  | .kick notifyOk availEvent usedFlags => { s with vq := (vcaVirtqueueKick s.vq notifyOk availEvent usedFlags).2 }
  | .getBuf used => s.getBuf used
  | .detachUnusedBuf => s.detachUnusedBuf
  | .disableCb => { s with vq := vcaVirtqueueDisableCb s.vq }
  | .enableCbPrepare => { s with vq := (vcaVirtqueueEnableCbPrepare s.vq).2 }
  | .enableCbDelayed usedIdx => { s with vq := (vcaVirtqueueEnableCbDelayed s.vq usedIdx).2 }

/-- A call, if callers make it. -/
def step (s : Driver τ) (op : Op τ) : Option (Driver τ) := if op.Allowed s.vq then some (s.apply op) else none

/-- A queue of `num` descriptors on which nothing was done yet. -/
def new (num : ℕ) (callback indirect event dmaMap : Bool) : Option (Driver τ) :=
  (vcaVringNewVirtqueue num callback indirect event dmaMap).map fun vq ↦ ⟨vq, [], [], false⟩

end Driver

/-- The driver goes on, and every token that was added came back or belongs to a buffer that is out. -/
structure Accounted (p : Params) (s : Driver τ) (outs : List (Out τ)) : Prop where
  running : s.stopped = false
  params : s.vq.toParams = p
  sound : Sound s.vq.toBooks outs
  tokens : s.added.Perm (s.returned ++ outs.map Out.token)

/-- The driver is accounted for. -/
def Bookkept (p : Params) (s : Driver τ) : Prop := ∃ outs, Accounted p s outs

variable {p : Params} {s t : Driver τ} {outs : List (Out τ)} {o : Out τ} {vq : VringVirtqueue τ}

theorem Accounted.add (h : Accounted p s outs) (htaken : Taken s.vq.toBooks o vq.toBooks) :
    Accounted p { s with vq := vq, added := s.added ++ [o.token] } (o :: outs) where
  running := h.running
  params := htaken.params_eq.trans h.params
  sound := (h.sound.add htaken).1
  tokens := by
    refine (h.tokens.append_right _).trans ?_
    rw [List.append_assoc, List.map_cons]
    exact (List.perm_append_singleton _ _).append_left _

theorem Accounted.back {outs' : List (Out τ)} (h : Accounted p s outs) (hperm : outs.Perm (o :: outs'))
    (hparams : vq.toParams = s.vq.toParams) (hsound : Sound vq.toBooks outs') :
    Accounted p { s with vq := vq, returned := s.returned ++ [o.token] } outs' where
  running := h.running
  params := hparams.trans h.params
  sound := hsound
  tokens := by
    refine h.tokens.trans ?_
    rw [List.append_assoc, List.singleton_append, ← List.map_cons]
    exact (hperm.map _).append_left _

theorem Accounted.frame (h : Accounted p s outs) (hparams : vq.toParams = s.vq.toParams)
    (hsound : Sound vq.toBooks outs) : Accounted p { s with vq := vq } outs where
  running := h.running
  params := hparams.trans h.params
  sound := hsound
  tokens := h.tokens

theorem vcaVirtqueueKick_toBooks (vq : VringVirtqueue τ) (notifyOk : Bool) (availEvent usedFlags : ℕ) :
    (vcaVirtqueueKick vq notifyOk availEvent usedFlags).2.toBooks = vq.toBooks := by
  rw [vcaVirtqueueKick, vcaVirtqueueKickPrepare]
  dsimp only
  rw [vcaVirtqueueNotify]
  split_ifs <;> rfl

theorem Accounted.apply (h : Accounted p s outs) {op : Op τ} (hop : op.Allowed s.vq) :
    Bookkept p (s.apply op) := by
  cases op with
  | addSgs outSgs inSgs data env =>
    obtain ⟨hne, hnum, hfresh, -⟩ := hop
    rw [Driver.apply, Driver.addSgs]
    rcases hadd : vcaVirtqueueAddSgs s.vq outSgs inSgs data env with ⟨r, vq⟩
    rcases h.sound.virtqueueAdd hne hnum hfresh hadd with ⟨rfl, o, rfl, -, htaken⟩ | ⟨hok, hbug, hsound, hparams, -⟩
    · exact ⟨_, h.add htaken⟩
    · cases r with
      | ok => exact absurd rfl hok
      | bug => exact absurd rfl hbug
      | eio => exact ⟨_, h.frame hparams hsound⟩
      | enospc => exact ⟨_, h.frame hparams hsound⟩
      | enomem => exact ⟨_, h.frame hparams hsound⟩
      | overrun => exact ⟨_, h.frame hparams hsound⟩
  | kick notifyOk availEvent usedFlags =>
    have hbooks := vcaVirtqueueKick_toBooks s.vq notifyOk availEvent usedFlags
    exact ⟨_, h.frame (congrArg Books.toParams hbooks) (hbooks ▸ h.sound)⟩
  | getBuf used =>
    rw [Driver.apply, Driver.getBuf]
    obtain ⟨r, vq, hget, hparams, ⟨rfl, hsound⟩ | ⟨o, outs', len, rfl, hperm, hsound⟩⟩ := h.sound.getBuf used
    · rw [hget]
      exact ⟨_, h.frame hparams hsound⟩
    · rw [hget]
      exact ⟨_, h.back hperm hparams hsound⟩
  | detachUnusedBuf =>
    rw [Driver.apply, Driver.detachUnusedBuf]
    rcases h.sound.detachUnusedBuf with ⟨-, hnull⟩ | ⟨o, outs', vq, hperm, hbuf, hparams, hsound⟩
    · rw [hnull]
      exact ⟨_, h⟩
    · rw [hbuf]
      exact ⟨_, h.back hperm hparams hsound⟩
  | disableCb => exact ⟨_, h.frame rfl h.sound⟩
  | enableCbPrepare => exact ⟨_, h.frame rfl h.sound⟩
  | enableCbDelayed usedIdx => exact ⟨_, h.frame rfl h.sound⟩

theorem bookkept_new {num : ℕ} {callback indirect event dmaMap : Bool}
    (h : Driver.new num callback indirect event dmaMap = some s) : Bookkept ⟨num, indirect, dmaMap⟩ s := by
  obtain ⟨vq, hvq, rfl⟩ := Option.map_eq_some_iff.mp h
  refine ⟨[], rfl, ?_, sound_vcaVringNewVirtqueue hvq, List.Perm.nil⟩
  rw [vcaVringNewVirtqueue] at hvq
  obtain ⟨-, hvq⟩ := Option.ite_none_left_eq_some.mp hvq
  cases hvq
  rfl

theorem Bookkept.exec {ops : List (Op τ)} (h : Bookkept p s) (hrun : exec Driver.step s ops = some t) :
    Bookkept p t := by
  refine exec_invariant (P := fun _ _ _ ↦ True) ?_ (along_of_forall fun _ _ _ ↦ trivial) h hrun
  rintro s op s' ⟨outs, h⟩ - hstep
  obtain ⟨hop, hs'⟩ := Option.ite_none_right_eq_some.mp hstep
  cases hs'
  exact h.apply hop

/-- Nothing fails, but there is no memory for a table. -/
def AddEnv.plain : AddEnv := ⟨none, true, fun _ ↦ false, true, 0, 0⟩

/-- Two buffers are added, one of them with an indirect table, and the used ring has the first one twice. -/
def sampleOps : List (Op ℕ) :=
  [.addSgs [[⟨4096, 0, 10⟩, ⟨8192, 0, 20⟩]] [] 7 { AddEnv.plain with table := some (65536, fun _ ↦ ⟨0, 0, 0, 0⟩) },
    .addSgs [] [[⟨4096, 0, 10⟩]] 8 .plain, .kick true 0 0,
    .getBuf ⟨2, fun _ ↦ ⟨0, 0⟩⟩, .getBuf ⟨2, fun _ ↦ ⟨0, 0⟩⟩]

/-- The loop of `free_unused_bufs`: the tokens that it frees, and the queue afterwards. `none` is a `BUG_ON`, or a loop
that has not ended after `fuel` rounds. -/
def freeUnusedBufs : (fuel : ℕ) → VringVirtqueue τ → Option (List τ × VringVirtqueue τ)
  | 0, _ => none
  | fuel + 1, vq =>
    match vcaVirtqueueDetachUnusedBuf vq with
    | some (.buf data vq) => (freeUnusedBufs fuel vq).map fun (tokens, vq) ↦ (data :: tokens, vq)
    | some (.null vq) => some ([], vq)
    | some .bug => none
    | none => none

theorem Sound.freeUnusedBufs (h : Sound vq.toBooks outs) (fuel : ℕ) (hfuel : outs.length < fuel) :
    ∃ tokens vq', freeUnusedBufs fuel vq = some (tokens, vq') ∧ tokens.Perm (outs.map Out.token) ∧
      vq'.toParams = vq.toParams ∧ Sound vq'.toBooks [] := by
  induction fuel generalizing vq outs with
  | zero => exact absurd hfuel (Nat.not_lt_zero _)
  | succ fuel ih =>
    rw [Virtqueue.freeUnusedBufs]
    rcases h.detachUnusedBuf with ⟨rfl, hnull⟩ | ⟨o, outs', vq₁, hperm, hbuf, hparams, hsound⟩
    · rw [hnull]
      exact ⟨[], vq, rfl, List.Perm.nil, rfl, h⟩
    · have hlen := hperm.length_eq
      rw [List.length_cons] at hlen
      obtain ⟨tokens, vq', hfree, htokens, hparams', hsound'⟩ := ih hsound (by omega)
      rw [hbuf]
      dsimp only
      rw [hfree]
      exact ⟨_, _, rfl, (htokens.cons _).trans (hperm.map _).symm, hparams'.trans hparams, hsound'⟩

theorem length_le_length_flatMap (outs : List (Out τ)) : outs.length ≤ (outs.flatMap Out.ids).length := by
  induction outs with
  | nil => exact Nat.le_refl 0
  | cons o outs ih =>
    rw [List.flatMap_cons, List.length_append, List.length_cons, Out.ids, List.length_cons]
    omega

theorem Sound.length_le {b : Books τ} (h : Sound b outs) : outs.length ≤ b.num := by
  obtain ⟨fl, j, -, -, hall⟩ := h.free
  have hlen := hall.length_eq
  rw [List.length_append, List.length_range] at hlen
  have hids := length_le_length_flatMap outs
  omega

/-- After any run the loop of `free_unused_bufs` ends, and frees the buffers that did not come back and no others. No
descriptor is missing then, no table, and nothing is mapped. -/
theorem freeUnusedBufs_run {num : ℕ} {callback indirect event dmaMap : Bool} {ops : List (Op τ)}
    (hnew : Driver.new num callback indirect event dmaMap = some s) (hrun : exec Driver.step s ops = some t) :
    ∃ tokens vq, freeUnusedBufs (num + 1) t.vq = some (tokens, vq) ∧ t.added.Perm (t.returned ++ tokens) ∧
      vq.numFree = num ∧ (∀ i, vq.data i = none) ∧ (dmaMap = false → ∀ a, vq.tables a = none) ∧
        (dmaMap = true → indirect = false → vq.maps.Perm vq.unmaps) := by
  obtain ⟨outs, h⟩ := (bookkept_new hnew).exec hrun
  have hnum : t.vq.num = num := congrArg Params.num h.params
  obtain ⟨tokens, vq, hfree, htokens, hparams, hsound⟩ := h.sound.freeUnusedBufs (num + 1)
    (Nat.lt_succ_of_le (hnum ▸ h.sound.length_le))
  replace hparams := hparams.trans h.params
  refine ⟨tokens, vq, hfree, h.tokens.trans (htokens.symm.append_left _), ?_, fun i ↦ ?_, fun hdma a ↦ ?_,
    fun hdma hind ↦ ?_⟩
  · rw [hsound.numFree_eq]
    exact congrArg Params.num hparams
  · refine Option.eq_none_iff_forall_ne_some.mpr fun t ht ↦ ?_
    obtain ⟨o, ho, -⟩ := (hsound.data i t).mp ht
    exact absurd ho List.not_mem_nil
  · by_contra ha
    obtain ⟨o, ho, -⟩ := hsound.noLeak ((congrArg Params.dmaMap hparams).trans hdma) a ha
    exact absurd ho List.not_mem_nil
  · have hmapped := hsound.mapped ((congrArg Params.dmaMap hparams).trans hdma)
      ((congrArg Params.indirect hparams).trans hind)
    rwa [List.flatMap_nil, List.append_nil] at hmapped

theorem freeUnusedBufs_sampleOps : ∃ s t : Driver ℕ, Driver.new 4 true true false false = some s ∧
    exec Driver.step s sampleOps = some t ∧ ∃ tokens vq, freeUnusedBufs 5 t.vq = some (tokens, vq) ∧
      t.added.Perm (t.returned ++ tokens) ∧ vq.numFree = 4 ∧ (∀ i, vq.data i = none) ∧
        (false = false → ∀ a, vq.tables a = none) ∧ (false = true → true = false → vq.maps.Perm vq.unmaps) :=
  ⟨_, _, rfl, rfl, @freeUnusedBufs_run ℕ _ _ 4 true true false false sampleOps rfl rfl⟩

end Vcass.Virtio.Virtqueue
