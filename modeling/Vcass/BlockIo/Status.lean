import Vcass.BlockIo.Disk.Ends
import Vcass.BlockIo.CompletionRing

/-!
# Block I/O: the status of an answer

The way of a return code of the backend to `vcablk_disk_request_end`. The completion ring keeps one byte of it,
which the backend writes as an `__s8` and the frontend reads as a `__u8`. The value read is given to
`vcablk_disk_request_done`, which ends the request with it or, if it is the answer to another part than the last,
remembers it in `split_request_error`.

So an error from `-127` to `-1` is never read as itself, and a multiple of `256` is read as success.
-/

namespace Vcass.BlockIo.CompletionRing

open Conc
open Disk (Part End)

/-! ## Arithmetic -/

/-- What is asked of the value that is read: it is 0 for success only, and errors of seven bits are kept. -/
def Faithful (ret : ℤ) (v : ℕ) : Prop := (v = 0 ↔ ret = 0) ∧ (-127 ≤ ret → ret ≤ -1 → (v : ℤ) = ret)

instance (ret : ℤ) (v : ℕ) : Decidable (Faithful ret v) := by
  unfold Faithful
  infer_instance

theorem ackRet_eq (ret : ℤ) : (ackRet ret : ℤ) = ret % 256 := by
  have hnonneg : 0 ≤ ret % 256 := Int.emod_nonneg ret (by decide)
  have hmod : ret.bmod 256 % 256 = ret % 256 := Int.bmod_emod
  rw [ackRet, u8, s8, hmod, Int.toNat_of_nonneg hnonneg]

/-- An error from -127 to -1 is read as a positive number. -/
theorem faithful_ackRet_iff {ret : ℤ} (hret : ret ≤ 0) :
    Faithful ret (ackRet ret) ↔ ret = 0 ∨ ret < -127 ∧ ret % 256 ≠ 0 := by
  have hread := ackRet_eq ret
  constructor
  · rintro ⟨hzero, hsmall⟩
    by_cases h0 : ret = 0
    · exact Or.inl h0
    · right
      constructor
      · by_contra hlt
        have h := hsmall (by omega) (by omega)
        omega
      · intro hmod
        exact h0 (hzero.mp (by omega))
  · rintro (rfl | ⟨hlt, hmod⟩)
    · exact ⟨by decide, fun _ h ↦ absurd h (by decide)⟩
    · constructor
      · constructor
        · intro h
          omega
        · intro h
          omega
      · intro h
        omega

/-! ## The answers of a run -/

/-- The return code that the backend sends for a part. -/
def Label.sends : Label → List (ℕ × ℤ)
  | .send k ret => [(k, ret)]
  | .disk _ => []
  | .sender => []
  | .work => []

/-- The ring transports the answers `xs`: those that have reached the handler were read as one byte. -/
structure Transports (s : Sys) (xs : List (ℕ × ℤ)) : Prop where
  answered : s.answered = xs.map Prod.fst
  started : (started s).map VcablkCompletion.ret = xs.map fun x ↦ ackRet x.2
  arrivals : s.disk.shared.arrivals = (xs.take s.handed.length).map fun x ↦ (x.1, ackRet x.2)

variable {s s' : Sys} {mq : Bool} {xs : List (ℕ × ℤ)}

theorem Inv.handed_le_started (h : Inv s) : s.handed.length ≤ (CompletionRing.started s).length := by
  have hle := h.handed_le
  rw [CompletionRing.started, List.length_append]
  omega

theorem Transports.length (h : Transports s xs) : (CompletionRing.started s).length = xs.length := by
  rw [← List.length_map VcablkCompletion.ret, h.started, List.length_map]

/-- Nothing is lost on the way into the ring. -/
theorem started_senderStep {x : Sender} (h : Inv s) (hx : s.sender = some x) :
    CompletionRing.started (senderStep s x) = CompletionRing.started s := by
  rw [senderStep]
  cases x.phase with
  | check sleepCounter =>
    dsimp only
    rw [h.not_full hx, if_neg Bool.false_ne_true, CompletionRing.started, CompletionRing.started, hx]
    rfl
  | writeRet =>
    rw [CompletionRing.started, CompletionRing.started, hx]
    rfl
  | writeCookie =>
    rw [CompletionRing.started, CompletionRing.started, hx]
    rfl
  | publish =>
    rw [CompletionRing.started, CompletionRing.started, hx]
    simp

theorem senderStep_fields (s : Sys) (x : Sender) : (senderStep s x).answered = s.answered ∧
    (senderStep s x).handed = s.handed ∧ (senderStep s x).disk = s.disk := by
  rw [senderStep]
  cases x.phase with
  | check sleepCounter =>
    dsimp only
    split
    · split <;> exact ⟨rfl, rfl, rfl⟩
    · exact ⟨rfl, rfl, rfl⟩
  | _ => exact ⟨rfl, rfl, rfl⟩

/-- The handler calls `vcablk_disk_request_done`, or does nothing that concerns the answers. -/
theorem workStep_cases (hs : workStep mq s = some s') :
    (∃ lastUsed id ret d, s.work = .done lastUsed id ret ∧ requestDone mq s.disk id ret = some d ∧
      s' = { s with disk := d, work := .running lastUsed, handed := s.handed ++ [⟨id, ret⟩] }) ∨
    (s'.answered = s.answered ∧ CompletionRing.started s' = CompletionRing.started s ∧ s'.handed = s.handed ∧
      s'.disk = s.disk) := by
  rw [workStep] at hs
  cases hw : s.work with
  | done lastUsed id ret =>
    rw [hw] at hs
    obtain ⟨d, hd, rfl⟩ := Option.map_eq_some_iff.mp hs
    exact Or.inl ⟨lastUsed, id, ret, d, rfl, hd, rfl⟩
  | loop lastUsed =>
    rw [hw] at hs
    dsimp only at hs
    split at hs <;> cases hs <;> exact Or.inr ⟨rfl, rfl, rfl, rfl⟩
  | running lastUsed =>
    rw [hw] at hs
    dsimp only at hs
    split at hs
    · cases hs
    · cases hs
      exact Or.inr ⟨rfl, rfl, rfl, rfl⟩
  | _ =>
    rw [hw] at hs
    cases hs
    exact Or.inr ⟨rfl, rfl, rfl, rfl⟩

theorem requestDone_arrivals {lastUsed id ret : ℕ} {d : Disk.Sys} (h : Inv s)
    (hw : s.work = .done lastUsed id ret) (hd : requestDone mq s.disk id ret = some d) :
    ∃ k, s.answered[s.handed.length]? = some k ∧ s.sent[s.handed.length]? = some ⟨id, ret⟩ ∧
      d.shared.arrivals = s.disk.shared.arrivals ++ [(k, ret)] := by
  have hwork := h.work
  rw [hw] at hwork
  obtain ⟨-, hsent⟩ := hwork
  obtain ⟨k, p, hk, hlive, htaken, hp, hcookie⟩ := h.next hsent
  have hfind : findPart s.disk.shared id = some k := by
    have hid : p.cookie = id := hcookie
    rw [← hid]
    exact findPart_eq h.disk.good hlive hp
  rw [requestDone, hfind] at hd
  dsimp only at hd
  rw [Disk.step] at hd
  split at hd
  · rw [if_pos ⟨hlive, htaken⟩] at hd
    cases hd
    exact ⟨k, hk, hsent, rfl⟩
  · cases hd

theorem Transports.step {l : Label} (h : Transports s xs) (hinv : Inv s)
    (hs : CompletionRing.step mq s l = some s') : Transports s' (xs ++ l.sends) := by
  cases l with
  | disk l =>
    have hl : ∀ k ret, l ≠ .answer k ret := by
      rintro k ret rfl
      rw [CompletionRing.step] at hs
      cases hs
    obtain ⟨d, hd, rfl⟩ : ∃ d, Disk.step mq s.disk l = some d ∧ { s with disk := d } = s' := by
      rw [CompletionRing.step.eq_def] at hs
      cases l <;> first
        | exact absurd rfl (hl _ _)
        | exact Option.map_eq_some_iff.mp hs
    rw [Label.sends, List.append_nil]
    refine ⟨h.answered, h.started, ?_⟩
    have harr := (Disk.Grows.of_step hl hd).arrivals
    exact harr.trans h.arrivals
  | send k ret =>
    rw [CompletionRing.step] at hs
    split at hs
    · rename_i p hidle hp
      split at hs
      · cases hs
        have hle := hinv.handed_le_started
        rw [h.length] at hle
        have hstarted := h.started
        rw [CompletionRing.started, hidle, Option.map_none, Option.toList_none, List.append_nil] at hstarted
        refine ⟨?_, ?_, ?_⟩
        · rw [Label.sends, List.map_append, ← h.answered]
          rfl
        · rw [Label.sends, List.map_append, ← hstarted]
          simp [CompletionRing.started]
        · rw [List.take_append_of_le_length hle]
          exact h.arrivals
      · cases hs
    · cases hs
  | sender =>
    rw [CompletionRing.step] at hs
    obtain ⟨x, hx, rfl⟩ := Option.map_eq_some_iff.mp hs
    obtain ⟨hanswered, hhanded, hdisk⟩ := senderStep_fields s x
    rw [Label.sends, List.append_nil]
    refine ⟨by rw [hanswered, h.answered], by rw [started_senderStep hinv hx, h.started], ?_⟩
    rw [hdisk, hhanded, h.arrivals]
  | work =>
    rw [CompletionRing.step] at hs
    rw [Label.sends, List.append_nil]
    rcases workStep_cases hs with ⟨lastUsed, id, ret, d, hw, hd, rfl⟩ | ⟨hanswered, hstarted, hhanded, hdisk⟩
    · obtain ⟨k, hk, hsent, harr⟩ := requestDone_arrivals hinv hw hd
      refine ⟨h.answered, h.started, ?_⟩
      -- the answer that is handed over is the next one
      have hret : (xs.map fun x ↦ ackRet x.2)[s.handed.length]? = some ret := by
        have hstarted : (CompletionRing.started s)[s.handed.length]? = some ⟨id, ret⟩ :=
          Disk.getElem?_of_isPrefix (List.prefix_append _ _) hsent
        rw [← h.started, List.getElem?_map, hstarted]
        rfl
      rw [h.answered, List.getElem?_map] at hk
      obtain ⟨x, hx, rfl⟩ := Option.map_eq_some_iff.mp hk
      rw [List.getElem?_map, hx] at hret
      dsimp only
      rw [harr, h.arrivals, List.length_append, List.length_singleton, List.take_add_one, hx, List.map_append,
        ← Option.some_inj.mp hret]
      rfl
    · refine ⟨by rw [hanswered, h.answered], by rw [hstarted, h.started], ?_⟩
      rw [hdisk, hhanded, h.arrivals]

theorem transports_init : Transports init [] := ⟨rfl, rfl, rfl⟩

theorem exec_transports {ls : List Label} (h : exec (step mq) s ls = some s') (hinv : Inv s)
    (hx : Transports s xs) : Transports s' (xs ++ ls.flatMap Label.sends) := by
  induction ls generalizing s xs with
  | nil =>
    obtain rfl := Option.some_inj.mp h
    rw [List.flatMap_nil, List.append_nil]
    exact hx
  | cons l ls ih =>
    obtain ⟨u, hu, h⟩ := exec_cons.mp h
    rw [List.flatMap_cons, ← List.append_assoc]
    exact ih h (hinv.step hu) (hx.step hinv hu)

/-! ## What requests are ended with -/

theorem mem_sends {ls : List Label} {k : ℕ} {ret : ℤ} (h : .send k ret ∈ ls) :
    (k, ret) ∈ ls.flatMap Label.sends :=
  List.mem_flatMap.mpr ⟨_, h, List.mem_singleton_self _⟩

theorem Transports.eq_ackRet (h : Transports s xs) (hinv : Inv s) {k v : ℕ} {ret : ℤ}
    (harr : (k, v) ∈ s.disk.shared.arrivals) (hsend : (k, ret) ∈ xs) : v = ackRet ret := by
  rw [h.arrivals] at harr
  obtain ⟨⟨k', ret'⟩, hmem, heq⟩ := List.mem_map.mp harr
  obtain ⟨rfl, rfl⟩ := Prod.mk.inj heq
  have hnodup := hinv.nodup
  rw [h.answered] at hnodup
  have hsame := List.inj_on_of_nodup_map hnodup (List.mem_of_mem_take hmem) hsend rfl
  rw [(Prod.mk.inj hsame).2]

/-- The remembered error was read for a part that is not the last of its request. -/
theorem splitErrorOf_mem {parts : List Part} {as : List (ℕ × ℕ)} (h : Disk.splitErrorOf parts as ≠ 0) :
    ∃ a ∈ as, a.2 = Disk.splitErrorOf parts as ∧ ∃ p, parts[a.1]? = some p ∧ p.final = false := by
  induction as using List.reverseRecOn with
  | nil => exact absurd rfl h
  | append_singleton as a ih =>
    have hpast : Disk.splitErrorOf parts (as ++ [a]) = Disk.splitErrorOf parts as →
        ∃ b ∈ as ++ [a], b.2 = Disk.splitErrorOf parts (as ++ [a]) ∧ ∃ p, parts[b.1]? = some p ∧ p.final = false := by
      intro hsame
      rw [hsame] at h ⊢
      obtain ⟨b, hb, hrest⟩ := ih h
      exact ⟨b, List.mem_append_left _ hb, hrest⟩
    have hstep : Disk.splitErrorOf parts (as ++ [a]) = _ := Disk.splitErrorOf_snoc parts a
    rw [Disk.splitStep] at hstep
    split at hstep
    · exact hpast hstep
    · rename_i p hp
      split at hstep
      · exact absurd hstep h
      · rename_i hfinal
        split at hstep
        · exact ⟨a, List.mem_append_right _ (List.mem_singleton_self a), hstep.symm, p, hp,
            Bool.not_eq_true _ ▸ hfinal⟩
        · exact hpast hstep

/-- **Which codes are read right.** In every run, what the handler reads for a part is faithful to the return code that
the backend has sent for it exactly if that is 0, or less than -127 and no multiple of 256. What a request is ended
with is what was read for its last part, or before that for a part that is not the last one. -/
theorem status_faithful_iff {ls : List Label} (h : exec (step mq) init ls = some s) :
    (∀ k v ret, (k, v) ∈ s.disk.shared.arrivals → .send k ret ∈ ls → ret ≤ 0 →
      (Faithful ret v ↔ ret = 0 ∨ ret < -127 ∧ ret % 256 ≠ 0)) ∧
    ∀ e ∈ s.disk.shared.ends, e.onBehalf ≠ none →
      ∃ k p, (k, e.status) ∈ s.disk.shared.arrivals ∧ s.disk.shared.parts[k]? = some p ∧
        (p.final = true ∧ p.req = e.req ∨ p.final = false ∧ e.status ≠ 0) := by
  have hinv := exec_inv h
  have htransports := exec_transports h inv_init transports_init
  rw [List.nil_append] at htransports
  constructor
  · intro k v ret harr hsend hret
    rw [htransports.eq_ackRet hinv harr (mem_sends hsend)]
    exact faithful_ackRet_iff hret
  · intro e he hdone
    have hmem : e ∈ Disk.answered s.disk.shared :=
      List.mem_filter.mpr ⟨he, Option.isSome_iff_ne_none.mpr hdone⟩
    obtain ⟨pre, k, ret, post, p, has, hp, hfinal, hreq, hstatus⟩ := hinv.disk.explained e hmem
    split at hstatus
    · rename_i hne
      obtain ⟨a, ha, hread, q, hq, hnot⟩ := splitErrorOf_mem hne
      refine ⟨a.1, q, ?_, hq, Or.inr ⟨hnot, hstatus ▸ hne⟩⟩
      rw [hstatus, ← hread, has]
      exact List.mem_append_left _ ha
    · refine ⟨k, p, ?_, hp, Or.inl ⟨hfinal, hreq.symm⟩⟩
      rw [hstatus, has]
      exact List.mem_append_right _ List.mem_cons_self

/-- One WRITE is answered with a return code, and ended. -/
def endRun (ret : ℤ) : List Label :=
  List.map Label.disk [.requestFn ⟨1, 8, [4096]⟩, .dequeue, .thread 1, .thread 1, .thread 1, .thread 7,
    .thread 1, .thread 1, .thread 1, .fetch 0, .fetch 0, .fetch 0, .fetch 0, .fetch 0, .fetch 0, .fetch 0] ++
    [Label.send 0 ret, Label.sender, Label.sender, Label.sender, Label.sender] ++ List.replicate 8 Label.work ++
    List.replicate 7 (Label.disk (.handler 0))

theorem write_status_faithful : ∃ s, exec (step true) init (endRun 0) = some s ∧
    s.disk.shared.ends = [⟨0, 0, some 1⟩] ∧ Faithful 0 0 := by
  have hrun : (exec (step true) init (endRun 0)).map (fun s ↦ (s.disk.shared.ends, s.disk.shared.arrivals)) =
      some ([⟨0, 0, some 1⟩], [(0, 0)]) := by decide +kernel
  obtain ⟨s, hs, heq⟩ := Option.map_eq_some_iff.mp hrun
  obtain ⟨hends, harr⟩ := Prod.mk.inj heq
  have hread : (0, 0) ∈ s.disk.shared.arrivals := by
    rw [harr]
    exact List.mem_singleton_self _
  have hsend : Label.send 0 0 ∈ endRun 0 := by simp [endRun]
  exact ⟨s, hs, hends, ((status_faithful_iff hs).1 0 0 0 hread hsend (by decide)).mpr (Or.inl rfl)⟩

/-- A request whose only part is answered with `-EIO` is ended with 251, and one whose part is answered with -512 is
ended with success. -/
theorem write_status_unfaithful :
    (∃ s, exec (step true) init (endRun (-eio)) = some s ∧ s.disk.shared.ends = [⟨0, 251, some 1⟩] ∧
      ¬ Faithful (-eio) 251) ∧
    ∃ s, exec (step true) init (endRun (-512)) = some s ∧ s.disk.shared.ends = [⟨0, 0, some 1⟩] ∧
      ¬ Faithful (-512) 0 := by
  have hrun (ret : ℤ) (v : ℕ) (h : (exec (step true) init (endRun ret)).map (fun s ↦ s.disk.shared.ends) =
      some [⟨0, v, some 1⟩]) : ∃ s, exec (step true) init (endRun ret) = some s ∧
        s.disk.shared.ends = [⟨0, v, some 1⟩] :=
    Option.map_eq_some_iff.mp h
  obtain ⟨s, hs, hends⟩ := hrun (-eio) 251 (by decide +kernel)
  obtain ⟨t, ht, hends'⟩ := hrun (-512) 0 (by decide +kernel)
  exact ⟨⟨s, hs, hends, by decide⟩, t, ht, hends', by decide⟩

end Vcass.BlockIo.CompletionRing
