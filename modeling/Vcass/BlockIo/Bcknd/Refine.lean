import Vcass.BlockIo.Bcknd.Program

/-!
# Block I/O backend: the code refines the pipeline

Every run of the concurrent system of `Vcass.BlockIo.Bcknd.System` is a run of the pipeline. The
relation `Sim` between the two has one clause for each thing the pipeline abstracts from: the pool's
links are a list, the ring's counters and slots are a queue, and the rest of a thread's program is a
state of its automaton.

The ring is the only place where the abstraction could fail. A callback that finds the ring full
drops its buffer, and the pipeline has no such step; `Sim.ring_room` shows that it never does,
because the ring has as many slots as the pool has buffers and the pool never gives out its last
one.
-/

namespace Vcass.BlockIo.Bcknd

open Conc Prog

/-! ## The transfer ring -/

section Ring

open RingCounter

/-- The ring holds `queue` behind `busy` slots that are still being completed; `used` slots were
released before. -/
structure RingHolds (r : VcablkRing ℕ) (used busy : ℕ) (queue : List ℕ) : Prop where
  lastUsed : r.lastUsed = count vcablkTransferRingSize used
  lastAdd : r.lastAdd = count vcablkTransferRingSize (used + busy + queue.length)
  elems : ∀ i (h : i < queue.length),
    r.elems (slot vcablkTransferRingSize (used + busy + i)) = queue[i]

variable {r : VcablkRing ℕ} {used busy b : ℕ} {queue : List ℕ}

theorem ringSize_eq : vcablkTransferRingSize = 2 ^ 4 := rfl

theorem RingHolds.empty_iff (h : RingHolds r used 0 queue)
    (hlen : queue.length ≤ vcablkTransferRingSize) :
    vcaRbBuffEmpty r.lastAdd r.lastUsed = true ↔ queue = [] := by
  rw [h.lastAdd, h.lastUsed, ringSize_eq, vcaRbBuffEmpty_count (by omega), add_zero,
    Nat.add_eq_left, List.length_eq_zero_iff]
  rw [ringSize_eq] at hlen
  omega

theorem RingHolds.not_full (h : RingHolds r used busy queue)
    (hlen : busy + queue.length < vcablkTransferRingSize) :
    vcaRbBuffFull r.lastAdd r.lastUsed vcablkTransferRingSize = false := by
  rw [ringSize_eq] at hlen
  rw [← Bool.not_eq_true, h.lastAdd, h.lastUsed, ringSize_eq,
    vcaRbBuffFull_count (by omega) (by omega)]
  omega

theorem RingHolds.get (h : RingHolds r used 0 (b :: queue)) :
    r.elems (vcaRbCounterToIdx r.lastUsed vcablkTransferRingSize) = b ∧
      RingHolds r used 1 queue := by
  refine ⟨?_, h.lastUsed, ?_, fun i hi ↦ ?_⟩
  · rw [h.lastUsed, ringSize_eq, vcaRbCounterToIdx_count]
    exact h.elems 0 (by simp)
  · rw [h.lastAdd, List.length_cons]
    congr 1
    omega
  · have := h.elems (i + 1) (by simpa using hi)
    rwa [show used + 0 + (i + 1) = used + 1 + i by omega] at this

theorem RingHolds.put (h : RingHolds r used busy queue)
    (hlen : busy + queue.length < vcablkTransferRingSize) :
    RingHolds { r with
      elems := Function.update r.elems (vcaRbCounterToIdx r.lastAdd vcablkTransferRingSize) b }
      used busy queue := by
  refine ⟨h.lastUsed, h.lastAdd, fun i hi ↦ ?_⟩
  rw [← h.elems i hi]
  refine Function.update_of_ne ?_ _ _
  rw [h.lastAdd, ringSize_eq, vcaRbCounterToIdx_count]
  rw [ringSize_eq] at hlen
  exact slot_ne (by omega) (by omega)

theorem RingHolds.add (h : RingHolds r used busy queue)
    (hb : r.elems (vcaRbCounterToIdx r.lastAdd vcablkTransferRingSize) = b) :
    RingHolds { r with lastAdd := vcaRbCounterAdd r.lastAdd 1 vcablkTransferRingSize } used busy
      (queue ++ [b]) := by
  refine ⟨h.lastUsed, ?_, fun i hi ↦ ?_⟩
  · show vcaRbCounterAdd r.lastAdd 1 vcablkTransferRingSize = _
    rw [h.lastAdd, ringSize_eq, vcaRbCounterAdd_count, List.length_append]
    rfl
  · rw [List.length_append, List.length_singleton] at hi
    by_cases hlt : i < queue.length
    · rw [List.getElem_append_left hlt]
      exact h.elems i hlt
    · obtain rfl : i = queue.length := by omega
      rw [h.lastAdd, ringSize_eq, vcaRbCounterToIdx_count] at hb
      rw [List.getElem_concat_length rfl]
      exact hb

theorem RingHolds.release (h : RingHolds r used 1 queue) :
    RingHolds { r with lastUsed := vcaRbCounterAdd r.lastUsed 1 vcablkTransferRingSize } (used + 1)
      0 queue := by
  refine ⟨?_, h.lastAdd, h.elems⟩
  show vcaRbCounterAdd r.lastUsed 1 vcablkTransferRingSize = _
  rw [h.lastUsed, ringSize_eq, vcaRbCounterAdd_count]

end Ring

/-! ## What is left of a thread's program -/

/-- The second half of the callback: the buffer goes into the ring. -/
def enqueueCode (b : ℕ) : BProg Unit := do
  let lastAdd ← call .ringLastAdd
  let lastUsed ← call .ringLastUsed
  if vcaRbBuffFull lastAdd lastUsed vcablkTransferRingSize then
    pure ()
  else
    call (.ringPut (vcaRbCounterToIdx lastAdd vcablkTransferRingSize) b)
    call (.ringSetLastAdd (vcaRbCounterAdd lastAdd 1 vcablkTransferRingSize))

/-- What is left of the callback's program, given the counter and the slots of the ring. -/
inductive CbRel (lastAdd : ℕ) (elems : ℕ → ℕ) : Option (BProg Unit) → CbSt → Prop
  | idle : CbRel lastAdd elems none .idle
  | fin : CbRel lastAdd elems (some (.ret ())) .idle
  | unmap {b : ℕ} {p : CallbackParam} {w : Window} :
      CbRel lastAdd elems (some (.act (.iounmap w) fun _ ↦
        .act (.setParam b { p with remapped := none }) fun _ ↦ enqueueCode b)) (.unmap b p w)
  | clear {b : ℕ} {p : CallbackParam} :
      CbRel lastAdd elems
        (some (.act (.setParam b { p with remapped := none }) fun _ ↦ enqueueCode b)) (.clear b p)
  | holding {b : ℕ} : CbRel lastAdd elems (some (enqueueCode b)) (.holding b)
  | gotAdd {b : ℕ} :
      CbRel lastAdd elems (some (.act .ringLastUsed fun (lastUsed : ℕ) ↦
        if vcaRbBuffFull lastAdd lastUsed vcablkTransferRingSize then pure () else do
          call (.ringPut (vcaRbCounterToIdx lastAdd vcablkTransferRingSize) b)
          call (.ringSetLastAdd (vcaRbCounterAdd lastAdd 1 vcablkTransferRingSize)))) (.holding b)
  | put {b : ℕ} :
      CbRel lastAdd elems
        (some (.act (.ringPut (vcaRbCounterToIdx lastAdd vcablkTransferRingSize) b) fun _ ↦
          .act (.ringSetLastAdd (vcaRbCounterAdd lastAdd 1 vcablkTransferRingSize)) .ret))
        (.holding b)
  | added {b : ℕ} (h : elems (vcaRbCounterToIdx lastAdd vcablkTransferRingSize) = b) :
      CbRel lastAdd elems
        (some (.act (.ringSetLastAdd (vcaRbCounterAdd lastAdd 1 vcablkTransferRingSize)) .ret))
        (.holding b)

theorem callback_start (lastAdd : ℕ) (elems : ℕ → ℕ) (b : ℕ) (p : CallbackParam) :
    CbRel lastAdd elems (some (vcaBckndCallbackDma b p)) (.start b p) := by
  rw [vcaBckndCallbackDma, CbSt.start]
  cases p.remapped with
  | some w => exact .unmap
  | none => exact .holding

/-- What is left of the transfer thread's round, given its counter and the queue in the ring. -/
inductive XfRel (lastUsed : ℕ) (queue : List ℕ) : BProg ℕ → XfSt → Prop
  | loop : XfRel lastUsed queue (.ret lastUsed) .idle
  | wait : XfRel lastUsed queue (vcablkBckndDiskMakeTransferThread lastUsed) .idle
  | ready (h : queue ≠ []) :
      XfRel lastUsed queue
        (.act (.ringGet (vcaRbCounterToIdx lastUsed vcablkTransferRingSize))
          fun (r : ℕ × CallbackParam) ↦ takenCode lastUsed r.1 r.2) .idle
  | took {b : ℕ} {p : CallbackParam} : XfRel lastUsed queue (takenCode lastUsed b p) (.took b p)
  | toStore {b : ℕ} {p : CallbackParam} :
      XfRel lastUsed queue (.act (.mediaTransfer p.sector p.nsec b true) fun (r : ℤ) ↦
        storedCode lastUsed b p r) (.toStore b p)
  | toSync {b : ℕ} {p : CallbackParam} :
      XfRel lastUsed queue (.act (.mediaSync (some b)) fun (r : ℤ) ↦ respondCode lastUsed b p r)
        (.toSync b p)
  | toRespond {b : ℕ} {p : CallbackParam} {err : ℤ} :
      XfRel lastUsed queue (respondCode lastUsed b p err) (.toRespond b p err)
  | toPush {b : ℕ} : XfRel lastUsed queue (pushCode lastUsed b) (.toPush b)
  | pushed {b : ℕ} : XfRel lastUsed queue (releaseCode lastUsed) (.pushed b)

theorem XfRel.stored {lastUsed : ℕ} {queue : List ℕ} (b : ℕ) (p : CallbackParam) (err : ℤ) :
    XfRel lastUsed queue (storedCode lastUsed b p err) (.stored b p err) := by
  rw [storedCode, XfSt.stored]
  split
  · split
    · exact .toSync
    · exact .toRespond
  · exact .toPush

theorem XfRel.begun {lastUsed : ℕ} {queue : List ℕ} (b : ℕ) (p : CallbackParam) :
    XfRel lastUsed queue (begunCode lastUsed b p) (.begun b p) := by
  rw [begunCode, XfSt.begun]
  split
  · exact .toStore
  · exact .stored b p 0

theorem XfRel.append {lastUsed b : ℕ} {queue : List ℕ} {p : BProg ℕ} {x : XfSt}
    (h : XfRel lastUsed queue p x) : XfRel lastUsed (queue ++ [b]) p x := by
  cases h with
  | ready h => exact .ready (by simp)
  | _ => constructor

/-! ## The simulation -/

/-- The slot that the transfer thread has not released yet. -/
def XfSt.busy : XfSt → ℕ
  | idle => 0
  | _ => 1

/-- What is left of the request thread's program. -/
def ReqRel : Option (BProg ℤ) → ReqSt → Prop
  | none, q => q = .idle
  | some p, q => q ≠ .idle ∧ p.discard = q.code

/-- The state of the code and the state of the pipeline describe the same situation. -/
structure Sim (s : Sys) (a : Pipe) : Prop where
  core : s.shared.core = a.core
  pool : s.shared.pool.Holds a.free
  num : s.shared.pool.num = vcablkTransferRingSize
  ring : ∃ used, RingHolds s.shared.ring used a.xf.busy a.queue
  req : ReqRel s.req a.req
  cb : CbRel s.shared.ring.lastAdd s.shared.ring.elems s.cb a.cb
  xf : XfRel s.shared.ring.lastUsed a.queue s.xf a.xf
  owned : a.Owned

variable {s s' : Sys} {a : Pipe}

theorem step_request_act {c : ℤ} {o : Op} {k : Res o → BProg ℤ} (hs : s.req = some (.act o k))
    (h : step s (.request c) = some s') :
    ∃ r sh, sem s.shared o c = some (r, sh) ∧ s' = { s with shared := sh, req := some (k r) } := by
  simp only [step, hs, advance, Option.map_map, Option.map_eq_some_iff] at h
  obtain ⟨⟨r, sh⟩, hsem, rfl⟩ := h
  exact ⟨r, sh, hsem, rfl⟩

theorem step_callback_act {c : ℤ} {o : Op} {k : Res o → BProg Unit} (hs : s.cb = some (.act o k))
    (h : step s (.callback c) = some s') :
    ∃ r sh, sem s.shared o c = some (r, sh) ∧ s' = { s with shared := sh, cb := some (k r) } := by
  simp only [step, hs, advance, Option.map_map, Option.map_eq_some_iff] at h
  obtain ⟨⟨r, sh⟩, hsem, rfl⟩ := h
  exact ⟨r, sh, hsem, rfl⟩

theorem step_transfer_act {c : ℤ} {o : Op} {k : Res o → BProg ℕ} (hs : s.xf = .act o k)
    (h : step s (.transfer c) = some s') :
    ∃ r sh, sem s.shared o c = some (r, sh) ∧ s' = { s with shared := sh, xf := k r } := by
  simp only [step, hs, advance, Option.map_map, Option.map_eq_some_iff] at h
  obtain ⟨⟨r, sh⟩, hsem, rfl⟩ := h
  exact ⟨r, sh, hsem, rfl⟩

@[simp] theorem ReqSt.settle_ne_idle (cookie : ℕ) (es : List Entry) : settle cookie es ≠ idle := by
  cases es <;> simp [settle]

@[simp] theorem ReqSt.proceed_ne_idle (cookie : ℕ) (w : Window) (cs : List Chunk)
    (es : List Entry) : proceed cookie w cs es ≠ idle := by
  cases cs <;> simp [proceed]

@[simp] theorem ReqSt.start_ne_idle (g : List VcablkRequest) : start g ≠ idle := by
  rw [start]
  split
  split
  · simp
  · split <;> simp

/-! ### Steps of the request thread -/

theorem Sim.request_step {core : Core} {free : List ℕ} {pool : VcablkPool} {q : ReqSt}
    {p : BProg ℤ} (h : Sim s a) (hpool : pool.Holds free)
    (hnum : pool.num = vcablkTransferRingSize) (hq : q ≠ .idle) (hp : p.discard = q.code)
    (hstep : Pipe.Step a { a with core := core, free := free, req := q }) :
    ∃ a', Relation.ReflGen Pipe.Step a a' ∧
      Sim { s with shared := { s.shared with core := core, pool := pool }, req := some p } a' :=
  ⟨_, .single hstep, rfl, hpool, hnum, h.ring, ⟨hq, hp⟩, h.cb, h.xf, h.owned.step hstep⟩

/-- The program of the request thread goes on with an operation if its state does. -/
theorem Sim.request_act {c : ℤ} {o : Op} {f : Res o → BProg Unit} {q : ReqSt} (h : Sim s a)
    (hs : step s (.request c) = some s') (hq : a.req = q) (hcode : q.code = .act o f) (hidle : q ≠ .idle) :
    ∃ (k : Res o → BProg ℤ) (r : Res o) (sh : Shared), (∀ v, (k v).discard = f v) ∧
      sem s.shared o c = some (r, sh) ∧ s' = { s with shared := sh, req := some (k r) } := by
  have hreq := h.req
  rw [hq] at hreq
  cases hp : s.req with
  | none =>
    rw [hp] at hreq
    exact absurd hreq hidle
  | some p =>
    rw [hp] at hreq
    obtain ⟨k, rfl, hk⟩ := Prog.eq_act_of_discard (hreq.2.trans hcode)
    obtain ⟨r, sh, hsem, rfl⟩ := step_request_act hp hs
    exact ⟨k, r, sh, hk, hsem, rfl⟩

section Request

variable {c : ℤ} {cookie b : ℕ} {w : Window} {e : Entry} {ch : Chunk} {cs : List Chunk} {es : List Entry} {err : ℤ}

theorem Sim.request_lead (h : Sim s a) (hq : a.req = .lead cookie es) (hs : step s (.request c) = some s') :
    ∃ a', Relation.ReflGen Pipe.Step a a' ∧ Sim s' a' := by
  obtain ⟨k, r, sh, hk, hsem, rfl⟩ := h.request_act hs hq rfl nofun
  simp only [sem] at hsem
  split at hsem <;> cases hsem
  rename_i hr
  rw [h.core]
  refine h.request_step h.pool h.num ?_ ?_ (.leadSync c hq hr)
  · split <;> simp
  · rw [hk]
    split
    · rw [ReqSt.code_settle]
    · rfl

theorem Sim.request_next (h : Sim s a) (hq : a.req = .next cookie e es) (hs : step s (.request c) = some s') :
    ∃ a', Relation.ReflGen Pipe.Step a a' ∧ Sim s' a' := by
  obtain ⟨k, r, sh, hk, hsem, rfl⟩ := h.request_act hs hq rfl nofun
  simp only [sem] at hsem
  split at hsem <;> cases hsem <;> rw [h.core]
  · exact h.request_step h.pool h.num (by simp) (by rw [hk]; rfl) (.remapFail hq)
  · exact h.request_step h.pool h.num (by simp) (by rw [hk, ReqSt.code_proceed]) (.remap hq)

theorem Sim.request_inEntry (h : Sim s a) (hq : a.req = .inEntry cookie w ch cs es)
    (hs : step s (.request c) = some s') : ∃ a', Relation.ReflGen Pipe.Step a a' ∧ Sim s' a' := by
  obtain ⟨k, r, sh, hk, hsem, rfl⟩ := h.request_act hs hq rfl nofun
  simp only [sem] at hsem
  rcases h.pool.pop with ⟨-, hnone⟩ | ⟨b, b', free, pool, hfree, hpop, hpool, hnum⟩
  · simp [hnone] at hsem
  · rw [hpop] at hsem
    dsimp only at hsem
    split at hsem <;> cases hsem
    rw [h.core]
    exact h.request_step hpool (hnum.trans h.num) (by simp) (by rw [hk]; rfl) (.pop hq hfree)

theorem Sim.request_popped (h : Sim s a) (hq : a.req = .popped cookie w b ch cs es)
    (hs : step s (.request c) = some s') : ∃ a', Relation.ReflGen Pipe.Step a a' ∧ Sim s' a' := by
  obtain ⟨k, r, sh, hk, hsem, rfl⟩ := h.request_act hs hq rfl nofun
  simp only [sem] at hsem
  cases hsem
  rw [h.core]
  refine h.request_step h.pool h.num ?_ ?_ (.fill hq)
  · split <;> simp
  · rw [hk]
    split <;> rfl

theorem Sim.request_toLoad (h : Sim s a) (hq : a.req = .toLoad cookie w b ch cs es)
    (hs : step s (.request c) = some s') : ∃ a', Relation.ReflGen Pipe.Step a a' ∧ Sim s' a' := by
  obtain ⟨k, r, sh, hk, hsem, rfl⟩ := h.request_act hs hq rfl nofun
  simp only [sem] at hsem
  split at hsem <;> cases hsem
  rename_i hr
  rw [h.core]
  refine h.request_step h.pool h.num ?_ ?_ (.load c hq hr)
  · split <;> simp
  · rw [hk]
    split <;> rfl

theorem Sim.request_toSubmit (h : Sim s a) (hq : a.req = .toSubmit cookie w b ch cs es)
    (hs : step s (.request c) = some s') : ∃ a', Relation.ReflGen Pipe.Step a a' ∧ Sim s' a' := by
  obtain ⟨k, r, sh, hk, hsem, rfl⟩ := h.request_act hs hq rfl nofun
  simp only [sem] at hsem
  split at hsem <;> cases hsem
  rw [h.core]
  refine h.request_step h.pool h.num ?_ ?_ (.submit c hq)
  · split <;> simp
  · rw [hk]
    split
    · rfl
    · rw [ReqSt.code_proceed]

/-- An error is answered behind the release of the window, if there is one. -/
theorem Sim.request_abort {w : Option Window} (h : Sim s a) (hq : a.req = .abort cookie w err)
    (hs : step s (.request c) = some s') : ∃ a', Relation.ReflGen Pipe.Step a a' ∧ Sim s' a' := by
  cases w with
  | some w =>
    obtain ⟨k, r, sh, hk, hsem, rfl⟩ := h.request_act hs hq rfl nofun
    simp only [sem] at hsem
    cases hsem
    rw [h.core]
    exact h.request_step h.pool h.num (by simp) (hk _) (.abortUnmap hq)
  | none =>
    obtain ⟨k, r, sh, hk, hsem, rfl⟩ := h.request_act hs hq rfl nofun
    simp only [sem] at hsem
    cases hsem
    rw [h.core]
    exact h.request_step h.pool h.num (by simp) (hk _) (.abortRespond hq)

theorem Sim.request_done (h : Sim s a) (hq : a.req = .done) (hs : step s (.request c) = some s') :
    ∃ a', Relation.ReflGen Pipe.Step a a' ∧ Sim s' a' := by
  have hreq := h.req
  rw [hq] at hreq
  cases hp : s.req with
  | none => simp [step, hp] at hs
  | some p =>
    rw [hp] at hreq
    obtain ⟨v, rfl⟩ := Prog.eq_ret_of_discard hreq.2
    simp only [step, hp, Option.some_inj] at hs
    subst hs
    have hstep : Pipe.Step a { a with req := .idle } := .finish hq
    exact ⟨_, .single hstep, h.core, h.pool, h.num, h.ring, rfl, h.cb, h.xf, h.owned.step hstep⟩

theorem Sim.request (h : Sim s a) (hs : step s (.request c) = some s') :
    ∃ a', Relation.ReflGen Pipe.Step a a' ∧ Sim s' a' := by
  cases hq : a.req with
  | idle =>
    have hreq := h.req
    rw [hq] at hreq
    cases hp : s.req with
    | none => simp [step, hp] at hs
    | some p =>
      rw [hp] at hreq
      exact absurd rfl hreq.1
  | lead cookie es => exact h.request_lead hq hs
  | next cookie e es => exact h.request_next hq hs
  | inEntry cookie w ch cs es => exact h.request_inEntry hq hs
  | popped cookie w b ch cs es => exact h.request_popped hq hs
  | toLoad cookie w b ch cs es => exact h.request_toLoad hq hs
  | toSubmit cookie w b ch cs es => exact h.request_toSubmit hq hs
  | abort cookie w err => exact h.request_abort hq hs
  | done => exact h.request_done hq hs

end Request

theorem Pipe.Owned.length_le (h : a.Owned) :
    a.free.length + a.req.hand.length + a.flight.length ≤ vcablkTransferRingSize := by
  set l := a.free ++ a.req.hand ++ a.flight with hl
  have hcount (b : ℕ) : l.count b ≤ if b < vcablkTransferRingSize then 1 else 0 := by
    rw [← h b, hl, List.count_append, List.count_append]
    omega
  have hnodup : l.Nodup := List.nodup_iff_count_le_one.mpr fun b ↦ by
    have := hcount b
    split at this <;> omega
  have hsub : l ⊆ List.range vcablkTransferRingSize := fun b hb ↦ by
    have := hcount b
    have hpos := List.count_pos_iff.mpr hb
    rw [List.mem_range]
    by_contra hlt
    rw [if_neg hlt] at this
    omega
  have := (List.subperm_of_subset hnodup hsub).length_le
  simpa [hl, List.length_append, add_assoc] using this

theorem Sim.free_pos (h : Sim s a) : 0 < a.free.length := by
  obtain ⟨rest, hfree, -⟩ := h.pool.linked
  rw [hfree]
  exact Nat.succ_pos _

/-- **The ring is never full** when the callback wants to put a buffer into it: the pool keeps one
buffer, and the callback holds another. -/
theorem Sim.ring_room {b : ℕ} (h : Sim s a) (hcb : a.cb = .holding b) :
    a.xf.busy + a.queue.length < vcablkTransferRingSize := by
  have hlen := h.owned.length_le
  have hpos := h.free_pos
  rw [Pipe.flight, hcb, vcablkTransferRingSize] at hlen
  rw [vcablkTransferRingSize]
  simp only [List.length_append, CbSt.hand_holding, List.length_singleton, List.length_map] at hlen
  have : a.xf.busy ≤ 1 := by cases a.xf <;> simp [XfSt.busy]
  omega

theorem Sim.callback {c : ℤ} (h : Sim s a) (hs : step s (.callback c) = some s') :
    ∃ a', Relation.ReflGen Pipe.Step a a' ∧ Sim s' a' := by
  have hcb := h.cb
  obtain ⟨used, hring⟩ := h.ring
  generalize hp : s.cb = p at hcb
  generalize hq : a.cb = q at hcb
  cases hcb with
  | idle => simp [step, hp] at hs
  | fin =>
    simp only [step, hp, Option.some_inj] at hs
    subst hs
    exact ⟨a, .refl, h.core, h.pool, h.num, h.ring, h.req, hq ▸ .idle, h.xf, h.owned⟩
  | @unmap b p w =>
    obtain ⟨r, sh, hsem, rfl⟩ := step_callback_act hp hs
    simp only [sem] at hsem
    cases hsem
    have hstep := Pipe.Step.cbUnmap hq
    exact ⟨_, .single hstep, by rw [h.core], h.pool, h.num, h.ring, h.req, .clear, h.xf,
      h.owned.step hstep⟩
  | @clear b p =>
    obtain ⟨r, sh, hsem, rfl⟩ := step_callback_act hp hs
    simp only [sem] at hsem
    cases hsem
    have hstep := Pipe.Step.cbClear hq
    exact ⟨_, .single hstep, by rw [h.core], h.pool, h.num, h.ring, h.req, .holding, h.xf,
      h.owned.step hstep⟩
  | @holding b =>
    obtain ⟨r, sh, hsem, rfl⟩ := step_callback_act hp hs
    simp only [sem] at hsem
    cases hsem
    exact ⟨a, .refl, h.core, h.pool, h.num, h.ring, h.req, hq ▸ .gotAdd, h.xf, h.owned⟩
  | @gotAdd b =>
    obtain ⟨r, sh, hsem, rfl⟩ := step_callback_act hp hs
    simp only [sem] at hsem
    cases hsem
    rw [hring.not_full (h.ring_room hq)]
    exact ⟨a, .refl, h.core, h.pool, h.num, h.ring, h.req, hq ▸ .put, h.xf, h.owned⟩
  | @put b =>
    obtain ⟨r, sh, hsem, rfl⟩ := step_callback_act hp hs
    simp only [sem] at hsem
    cases hsem
    exact ⟨a, .refl, h.core, h.pool, h.num, ⟨used, hring.put (h.ring_room hq)⟩, h.req,
      hq ▸ .added (Function.update_self ..), h.xf, h.owned⟩
  | @added b hb =>
    obtain ⟨r, sh, hsem, rfl⟩ := step_callback_act hp hs
    simp only [sem] at hsem
    cases hsem
    have hstep := Pipe.Step.enqueue hq
    exact ⟨_, .single hstep, h.core, h.pool, h.num, ⟨used, hring.add hb⟩, h.req, .fin, h.xf.append,
      h.owned.step hstep⟩

@[simp] theorem XfSt.busy_stored (b : ℕ) (p : CallbackParam) (err : ℤ) :
    (stored b p err).busy = 1 := by
  rw [stored]
  split
  · split <;> rfl
  · rfl

@[simp] theorem XfSt.busy_begun (b : ℕ) (p : CallbackParam) : (begun b p).busy = 1 := by
  rw [begun]
  split
  · rfl
  · exact busy_stored b p 0

theorem Sim.transfer_step {core : Core} {free : List ℕ} {pool : VcablkPool} {q : XfSt}
    {p : BProg ℕ} (h : Sim s a) (hpool : pool.Holds free)
    (hnum : pool.num = vcablkTransferRingSize) (hq : a.xf.busy = q.busy)
    (hp : XfRel s.shared.ring.lastUsed a.queue p q)
    (hstep : Pipe.Step a { a with core := core, free := free, xf := q }) :
    ∃ a', Relation.ReflGen Pipe.Step a a' ∧
      Sim { s with shared := { s.shared with core := core, pool := pool }, xf := p } a' :=
  ⟨_, .single hstep, rfl, hpool, hnum, hq ▸ h.ring, h.req, h.cb, hp, h.owned.step hstep⟩

theorem Sim.queue_le (h : Sim s a) : a.queue.length ≤ vcablkTransferRingSize := by
  have hlen := h.owned.length_le
  rw [Pipe.flight] at hlen
  simp only [List.length_append] at hlen
  omega

/-- The `BUG_ON` of the pool does not fire: a buffer to be returned is out. -/
theorem Sim.pool_push {b : ℕ} (h : Sim s a) (hxf : a.xf = .toPush b) :
    ∃ pool, s.shared.pool.vcablkPoolPush b = some pool ∧ pool.Holds (a.free ++ [b]) ∧
      pool.num = s.shared.pool.num := by
  have hown := h.owned b
  rw [Pipe.flight, hxf] at hown
  simp only [XfSt.hand_toPush, List.count_append, List.count_singleton_self] at hown
  have hout : b ∉ a.free := fun hmem ↦ by
    have := List.count_pos_iff.mpr hmem
    split at hown <;> omega
  have hlt : b < s.shared.pool.num := by
    rw [h.num]
    by_contra hge
    rw [if_neg hge] at hown
    omega
  exact h.pool.push hlt hout

theorem Sim.transfer {c : ℤ} (h : Sim s a) (hs : step s (.transfer c) = some s') :
    ∃ a', Relation.ReflGen Pipe.Step a a' ∧ Sim s' a' := by
  have hxf := h.xf
  obtain ⟨used, hring⟩ := h.ring
  generalize hp : s.xf = p at hxf
  generalize hq : a.xf = q at hxf
  rw [hq] at hring
  cases hxf with
  | loop =>
    simp only [step, hp, Option.some_inj] at hs
    subst hs
    exact ⟨a, .refl, h.core, h.pool, h.num, h.ring, h.req, h.cb, hq ▸ .wait, h.owned⟩
  | wait =>
    obtain ⟨r, sh, hsem, rfl⟩ := step_transfer_act hp hs
    simp only [sem] at hsem
    split at hsem <;> cases hsem
    rename_i hempty
    have hne : a.queue ≠ [] := by
      rwa [hring.empty_iff h.queue_le] at hempty
    refine ⟨a, .refl, h.core, h.pool, h.num, h.ring, h.req, h.cb, ?_, h.owned⟩
    rw [hq]
    exact cast (congrArg (fun k ↦ XfRel s.shared.ring.lastUsed a.queue (.act _ k) .idle)
      (funext fun r ↦ (complete_bind _ r.1 r.2).symm)) (XfRel.ready hne)
  | ready hne =>
    obtain ⟨r, sh, hsem, rfl⟩ := step_transfer_act hp hs
    simp only [sem] at hsem
    cases hsem
    obtain ⟨b, rest, hqueue⟩ := List.exists_cons_of_ne_nil hne
    rw [hqueue] at hring
    obtain ⟨hb, hrest⟩ := hring.get
    have hstep := Pipe.Step.take hq hqueue
    rw [hb, h.core]
    exact ⟨_, .single hstep, h.core, h.pool, h.num, ⟨used, hrest⟩, h.req, h.cb, .took,
      h.owned.step hstep⟩
  | @took b p =>
    obtain ⟨r, sh, hsem, rfl⟩ := step_transfer_act hp hs
    simp only [sem] at hsem
    cases hsem
    rw [h.core]
    refine h.transfer_step h.pool h.num ?_ (.begun b p) (.clearTx hq)
    rw [hq, XfSt.busy_begun]
    rfl
  | @toStore b p =>
    obtain ⟨r, sh, hsem, rfl⟩ := step_transfer_act hp hs
    simp only [sem] at hsem
    split at hsem <;> cases hsem
    rename_i hr
    rw [h.core]
    refine h.transfer_step h.pool h.num ?_ (.stored b p c) (.store c hq hr)
    rw [hq, XfSt.busy_stored]
    rfl
  | @toSync b p =>
    obtain ⟨r, sh, hsem, rfl⟩ := step_transfer_act hp hs
    simp only [sem] at hsem
    split at hsem <;> cases hsem
    rename_i hr
    rw [h.core]
    exact h.transfer_step h.pool h.num (by simp [hq, XfSt.busy]) .toRespond (.flush c hq hr)
  | @toRespond b p err =>
    obtain ⟨r, sh, hsem, rfl⟩ := step_transfer_act hp hs
    simp only [sem] at hsem
    cases hsem
    rw [h.core]
    exact h.transfer_step h.pool h.num (by simp [hq, XfSt.busy]) .toPush (.respond hq)
  | @toPush b =>
    obtain ⟨r, sh, hsem, rfl⟩ := step_transfer_act hp hs
    simp only [sem] at hsem
    obtain ⟨pool, hpush, hpool, hnum⟩ := h.pool_push hq
    rw [hpush] at hsem
    cases hsem
    rw [h.core]
    exact h.transfer_step hpool (hnum.trans h.num) (by simp [hq, XfSt.busy]) .pushed (.push hq)
  | @pushed b =>
    obtain ⟨r, sh, hsem, rfl⟩ := step_transfer_act hp hs
    simp only [sem] at hsem
    cases hsem
    have hstep := Pipe.Step.release hq
    exact ⟨_, .single hstep, h.core, h.pool, h.num, ⟨used + 1, hring.release⟩, h.req, h.cb, .loop,
      h.owned.step hstep⟩

theorem Sim.step {l : Label} (h : Sim s a) (hs : step s l = some s') :
    ∃ a', Relation.ReflGen Pipe.Step a a' ∧ Sim s' a' := by
  cases l with
  | request c => exact h.request hs
  | callback c => exact h.callback hs
  | transfer c => exact h.transfer hs
  | fetch g =>
    have hreq := h.req
    rw [Bcknd.step] at hs
    split at hs <;> cases hs
    rename_i hnone
    rw [hnone] at hreq
    have hstep := Pipe.Step.fetch g hreq
    exact ⟨_, .single hstep, by rw [h.core], h.pool, h.num, h.ring,
      ⟨ReqSt.start_ne_idle g, discard_request g⟩, h.cb, h.xf, h.owned.step hstep⟩
  | dma =>
    rw [Bcknd.step] at hs
    split at hs <;> cases hs
    rename_i d rest hdma
    rw [h.core] at hdma
    have hstep := Pipe.Step.move hdma
    exact ⟨_, .single hstep, by rw [h.core], h.pool, h.num, h.ring, h.req, h.cb, h.xf,
      h.owned.step hstep⟩
  | callbackStart =>
    rw [Bcknd.step] at hs
    split at hs <;> cases hs
    rename_i b rest hnone hdone
    have hcb := h.cb
    rw [hnone] at hcb
    rw [h.core] at hdone ⊢
    have hidle : a.cb = .idle := by
      generalize a.cb = q at hcb ⊢
      cases hcb
      rfl
    have hstep := Pipe.Step.cbStart hidle hdone
    exact ⟨_, .single hstep, rfl, h.pool, h.num, h.ring, h.req, callback_start _ _ b _, h.xf,
      h.owned.step hstep⟩

/-- The pipeline of a disk that has just been started. -/
def Pipe.start (media mem : ℕ → UInt8) : Pipe where
  core := (init media mem).shared.core
  free := List.range vcablkTransferRingSize
  queue := []
  req := .idle
  cb := .idle
  xf := .idle

theorem Sim.start (media mem : ℕ → UInt8) : Sim (init media mem) (Pipe.start media mem) := by
  obtain ⟨hpool, hnum⟩ : (vcablkPoolClear vcablkTransferRingSize).Holds
      (List.range vcablkTransferRingSize) ∧ _ :=
    vcablkPoolInit_holds (show vcablkPoolInit 15 = some _ from rfl)
  refine ⟨rfl, hpool, hnum, ⟨0, rfl, rfl, fun i hi ↦ absurd hi (by simp [Pipe.start])⟩, rfl, .idle,
    .wait, fun b ↦ ?_⟩
  simp [Pipe.start, Pipe.flight, lost, init, List.count_range]

/-- **Refinement.** Every run of the code is a run of the pipeline, and what the run's steps are
known to do to the shared state, the steps of the pipeline do as well. -/
theorem exec_refines {C : Core → Core → Prop} {media mem : ℕ → UInt8} {ls : List Label}
    (hC : Along (fun s _ s' ↦ C s.shared.core s'.shared.core) step (init media mem) ls)
    (h : exec step (init media mem) ls = some s) :
    ∃ a, Relation.ReflTransGen (fun a a' ↦ Pipe.Step a a' ∧ C a.core a'.core)
      (Pipe.start media mem) a ∧ Sim s a := by
  refine exec_simulation (fun {s l s' a} hsim hCs hs ↦ ?_) hC (Sim.start media mem) h
  obtain ⟨a', hstep, hsim'⟩ := hsim.step hs
  refine ⟨a', ?_, hsim'⟩
  cases hstep with
  | refl => exact .refl
  | single hstep => exact .single ⟨hstep, hsim.core ▸ hsim'.core ▸ hCs⟩

/-- The invariant rule: what the steps of the pipeline preserve holds of every run of the code. -/
theorem exec_invariant_pipe {C : Core → Core → Prop} {Inv : Pipe → Prop} {media mem : ℕ → UInt8}
    {ls : List Label} (hC : Along (fun s _ s' ↦ C s.shared.core s'.shared.core) step
      (init media mem) ls)
    (h : exec step (init media mem) ls = some s) (h0 : Inv (Pipe.start media mem))
    (hstep : ∀ {a a'}, Inv a → Pipe.Step a a' → C a.core a'.core → Inv a') :
    ∃ a, Sim s a ∧ Inv a := by
  obtain ⟨a, hpath, hsim⟩ := exec_refines hC h
  exact ⟨a, hsim, path_invariant (fun ha hT ↦ hstep ha hT.1 hT.2) h0 hpath⟩

end Vcass.BlockIo.Bcknd
