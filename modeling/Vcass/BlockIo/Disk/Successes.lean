import Vcass.BlockIo.Disk.Agreement
import Vcass.BlockIo.Disk.Ends

/-!
# Block I/O frontend: who ends a request with success

`vcablk_disk_request_end` is called by the completion handler, on behalf of the part whose answer it is at, and by the
request thread, on nobody's behalf. The second call always reports an error, so a request that ends with status 0 was
ended by an answer: the one to its final part, which reported success itself (`final_of_status_zero`).

That the request thread only ever reports errors is a property of the text of its programs (`EndsFail`).
-/

namespace Vcass.BlockIo.Disk

open Conc

variable {s : Sys} {mq : Bool} {ls : List Label}

/-! ## Who ends a request with success -/

/-- A request that is ended on nobody's behalf is ended with an error. -/
def EndsFail (o : Op) : Prop := ∀ r ret, o = .requestEnd none r ret → ret ≠ 0

section EndsFail

attribute [local simp] EndsFail

theorem vcablkDiskRequestStep_endsFail {c : ℕ} {type : RequestType} {bvec : Option BioVec} :
    (vcablkDiskRequestStep c type bvec).Only EndsFail := by
  refine ⟨by simp, fun slot ↦ ?_⟩
  cases slot <;> simp [Prog.bind]

theorem vcablkDiskRequestClean_endsFail {c : ℕ} : (vcablkDiskRequestClean c).Only EndsFail := by
  simp [vcablkDiskRequestClean]

theorem vcablkDiskRequestBreak_endsFail {ctx : Option ℕ} : (vcablkDiskRequestBreak ctx).Only EndsFail := by
  refine ⟨by simp, fun _ ↦ ?_⟩
  cases ctx with
  | none => trivial
  | some c => exact vcablkDiskRequestClean_endsFail

theorem vcablkDiskRequestSync_endsFail {doSync : Bool} {c : ℕ} : (vcablkDiskRequestSync doSync c).Only EndsFail := by
  rw [vcablkDiskRequestSync]
  split
  · exact vcablkDiskRequestStep_endsFail.bind fun _ ↦ trivial
  · trivial

theorem vcablkDiskRequestSplit_endsFail {r c : ℕ} {previous : Option ℕ} :
    (vcablkDiskRequestSplit r previous c).Only EndsFail := by
  refine ⟨by simp, fun idx ↦ ?_⟩
  dsimp only [Prog.bind]
  split
  · refine ⟨by simp, fun ret ↦ ?_⟩
    dsimp only [Prog.bind]
    split
    · trivial
    · refine ⟨by simp, fun c' ↦ ?_⟩
      cases c' <;> trivial
  · trivial

theorem vcablkDiskRequestLoop_endsFail {r : ℕ} {type : RequestType} {segments : List ℕ} {sector : ℕ}
    {previous : Option ℕ} {c : ℕ} : (vcablkDiskRequestLoop r type segments sector previous c).Only EndsFail := by
  induction segments generalizing sector previous c with
  | nil => trivial
  | cons len segments ih =>
    refine vcablkDiskRequestSplit_endsFail.bind fun split ↦ ?_
    split
    · trivial
    · split
      · trivial
      · refine vcablkDiskRequestStep_endsFail.bind fun ret ↦ ?_
        split
        · trivial
        · exact ih

theorem vcablkDiskAsyncRequest_endsFail {r : ℕ} {req : Request} : (vcablkDiskAsyncRequest r req).Only EndsFail := by
  have hbreak {ctx previous : Option ℕ} : (vcablkDiskRequestBreak ctx >>= fun _ ↦ pure previous).Only EndsFail :=
    vcablkDiskRequestBreak_endsFail.bind fun _ ↦ trivial
  refine ⟨by simp, fun ctx ↦ ?_⟩
  cases ctx with
  | none =>
    change (vcablkDiskRequestBreak none >>= fun _ ↦ pure none).Only EndsFail
    exact hbreak
  | some c =>
    refine vcablkDiskRequestSync_endsFail.bind fun ret ↦ ?_
    split
    · exact hbreak
    refine vcablkDiskRequestLoop_endsFail.bind fun loop ↦ ?_
    split
    · exact hbreak
    split
    · exact hbreak
    refine vcablkDiskRequestSync_endsFail.bind fun ret ↦ ?_
    split
    · exact hbreak
    refine ⟨by simp, fun _ ↦ ⟨by simp, fun ret ↦ ?_⟩⟩
    dsimp only [Prog.bind]
    split
    · exact hbreak
    · trivial

theorem vcablkDiskRequestEndLoop_endsFail {r previous : ℕ} : (vcablkDiskRequestEndLoop r previous).Only EndsFail := by
  refine ⟨by simp, fun idx ↦ ?_⟩
  dsimp only [Prog.bind]
  split
  · refine ⟨?_, fun _ ↦ trivial⟩
    rintro r ret heq
    obtain ⟨-, -, rfl⟩ := heq
    decide
  · trivial

theorem vcablkDiskRequestDone_endsFail {id ret : ℕ} : (vcablkDiskRequestDone id ret).Only EndsFail := by
  rw [vcablkDiskRequestDone]
  split
  · refine ⟨by simp, fun c ↦ ?_⟩
    cases c with
    | none => trivial
    | some c =>
      refine ⟨by simp, fun req ↦ vcablkDiskRequestClean_endsFail.bind fun _ ↦ ?_⟩
      cases req with
      | none =>
        dsimp only
        split <;> simp
      | some r =>
        refine ⟨by simp, fun err ↦ ?_⟩
        dsimp only [Prog.bind]
        split <;> simp
  · trivial

theorem FetchOnly.endsFail {α : Type} {p : FProg α} (h : FetchOnly p) : p.Only EndsFail := by
  induction h with
  | ret a => trivial
  | act ho _ ih =>
    refine ⟨?_, ih⟩
    cases ho <;> simp

end EndsFail

/-- The programs of the three threads, and the calls of `vcablk_disk_request_end` so far. -/
structure Honest (s : Sys) : Prop where
  thread : ∀ r p, s.thread = some (r, p) → p.Only EndsFail
  handler : ∀ p, s.handler = some p → p.Only EndsFail
  fetcher : ∀ snapshot p, s.fetcher = .fetching snapshot p → p.Only EndsFail
  ends : ∀ e ∈ s.shared.ends, e.onBehalf = none → e.status ≠ 0

theorem sem_ends {t t' : Shared} {o : Op} {c : ℤ} {res : Res o} (h : sem t o c = some (res, t')) :
    t'.ends = t.ends ∨ ∃ b r ret, o = .requestEnd b r ret ∧ t'.ends = t.ends ++ [⟨r, ret, b⟩] := by
  cases o
  case requestEnd b r ret =>
    obtain ⟨-, rfl⟩ := Prod.mk.inj (Option.some_inj.mp h)
    exact .inr ⟨b, r, ret, rfl, rfl⟩
  case putEntry slot x type bvec =>
    simp only [sem, putEntry] at h
    repeat' split at h
    all_goals
      obtain ⟨-, rfl⟩ := Prod.mk.inj (Option.some_inj.mp h)
      exact .inl rfl
  all_goals
    simp only [sem] at h
    repeat' split at h
    all_goals first
      | contradiction
      | obtain ⟨-, rfl⟩ := Prod.mk.inj (Option.some_inj.mp h)
        exact .inl rfl

/-- One operation of a program that ends requests on nobody's behalf with errors only. -/
theorem advance_endsFail {α : Type} {t t' : Shared} {p p' : FProg α} {c : ℤ} (hp : p.Only EndsFail)
    (h : advance t p c = some (t', p')) (ht : ∀ e ∈ t.ends, e.onBehalf = none → e.status ≠ 0) :
    p'.Only EndsFail ∧ ∀ e ∈ t'.ends, e.onBehalf = none → e.status ≠ 0 := by
  cases p with
  | ret a => simp [advance] at h
  | act o k =>
    rw [advance, Option.map_eq_some_iff] at h
    obtain ⟨⟨res, t''⟩, hsem, heq⟩ := h
    obtain ⟨rfl, rfl⟩ := Prod.mk.inj heq
    refine ⟨hp.2 res, ?_⟩
    rcases sem_ends hsem with hsame | ⟨b, r, ret, rfl, hnew⟩
    · exact hsame ▸ ht
    · intro e he hb
      rw [hnew, List.mem_append, List.mem_singleton] at he
      rcases he with he | rfl
      · exact ht e he hb
      · obtain rfl : b = none := hb
        exact hp.1 r ret rfl

theorem Honest.step {s s' : Sys} {l : Label} (h : Honest s) (hs : step mq s l = some s') : Honest s' := by
  cases l with
  | requestFn req =>
    rw [Disk.step, Option.some_inj] at hs
    subst hs
    refine ⟨h.thread, h.handler, h.fetcher, ?_⟩
    have hends : (vcablkDiskRequestFn mq s.shared req).ends = s.shared.ends := by
      rw [vcablkDiskRequestFn]
      dsimp only
      split
      · split <;> rfl
      · rfl
    exact hends ▸ h.ends
  | dequeue =>
    simp only [Disk.step] at hs
    split at hs
    · simp at hs
    split at hs
    · simp at hs
    rw [Option.some_inj] at hs
    subst hs
    refine ⟨fun r p hp ↦ ?_, h.handler, h.fetcher, h.ends⟩
    obtain ⟨-, rfl⟩ := Prod.mk.inj (Option.some_inj.mp hp)
    exact vcablkDiskAsyncRequest_endsFail
  | thread c =>
    simp only [Disk.step] at hs
    split at hs
    · simp at hs
    · rw [Option.some_inj] at hs
      subst hs
      exact ⟨by simp, h.handler, h.fetcher, h.ends⟩
    · rw [Option.some_inj] at hs
      subst hs
      refine ⟨fun r p hp ↦ ?_, h.handler, h.fetcher, h.ends⟩
      obtain ⟨-, rfl⟩ := Prod.mk.inj (Option.some_inj.mp hp)
      exact vcablkDiskRequestEndLoop_endsFail
    case h_4 r p _ _ heq =>
      obtain ⟨⟨t, p'⟩, ha, rfl⟩ := Option.map_eq_some_iff.mp hs
      obtain ⟨hp', hends⟩ := advance_endsFail (h.thread r p heq) ha h.ends
      refine ⟨fun r' q hq ↦ ?_, h.handler, h.fetcher, hends⟩
      obtain ⟨-, rfl⟩ := Prod.mk.inj (Option.some_inj.mp hq)
      exact hp'
  | answer k ret =>
    simp only [Disk.step] at hs
    split at hs
    · split at hs
      · rw [Option.some_inj] at hs
        subst hs
        refine ⟨h.thread, fun p hp ↦ ?_, h.fetcher, h.ends⟩
        rw [← Option.some_inj.mp hp]
        exact vcablkDiskRequestDone_endsFail
      · simp at hs
    · simp at hs
  | handler c =>
    simp only [Disk.step] at hs
    split at hs
    · simp at hs
    · rw [Option.some_inj] at hs
      subst hs
      exact ⟨h.thread, by simp, h.fetcher, h.ends⟩
    case h_3 p _ heq =>
      obtain ⟨⟨t, p'⟩, ha, rfl⟩ := Option.map_eq_some_iff.mp hs
      obtain ⟨hp', hends⟩ := advance_endsFail (h.handler p heq) ha h.ends
      refine ⟨h.thread, fun q hq ↦ ?_, h.fetcher, hends⟩
      rw [← Option.some_inj.mp hq]
      exact hp'
  | fetch c =>
    simp only [Disk.step] at hs
    split at hs
    · split at hs
      · simp at hs
      · rw [Option.some_inj] at hs
        subst hs
        exact ⟨h.thread, h.handler, by simp, h.ends⟩
    · split at hs
      · rw [Option.some_inj] at hs
        subst hs
        exact ⟨h.thread, h.handler, by simp, h.ends⟩
      · rw [Option.some_inj] at hs
        subst hs
        refine ⟨h.thread, h.handler, fun snapshot p hp ↦ ?_, h.ends⟩
        obtain ⟨-, rfl⟩ := Fetcher.fetching.inj hp
        exact vcablkBckndDiskGetNextRequest_fetchOnly.endsFail
    · rw [Option.some_inj] at hs
      subst hs
      exact ⟨h.thread, h.handler, by simp, h.ends⟩
    case h_4 snapshot p _ heq =>
      obtain ⟨⟨t, p'⟩, ha, rfl⟩ := Option.map_eq_some_iff.mp hs
      obtain ⟨hp', hends⟩ := advance_endsFail (h.fetcher snapshot p heq) ha h.ends
      refine ⟨h.thread, h.handler, fun x q hq ↦ ?_, hends⟩
      obtain ⟨-, rfl⟩ := Fetcher.fetching.inj hq
      exact hp'

/-- Only the completion handler ends a request with status 0. -/
theorem onBehalf_of_status_zero (h : exec (step mq) init ls = some s) {e : End} (he : e ∈ s.shared.ends)
    (h0 : e.status = 0) : e.onBehalf ≠ none := by
  have hinit : Honest init := ⟨by simp [init], by simp [init], by simp [init], by simp [init]⟩
  have hs : Honest s := exec_invariant (P := fun _ _ _ ↦ True) (fun ha _ hstep ↦ ha.step hstep)
    (along_of_forall fun _ _ _ ↦ trivial) hinit h
  exact fun hnone ↦ hs.ends e he hnone h0

theorem final_of_status_zero (h : exec (step mq) init ls = some s) {e : End} (he : e ∈ s.shared.ends)
    (h0 : e.status = 0) : ∃ k p, s.shared.parts[k]? = some p ∧ p.final = true ∧ p.req = e.req ∧
      (k, 0) ∈ s.shared.arrivals := by
  have hmem : e ∈ answered s.shared :=
    List.mem_filter.mpr ⟨he, Option.isSome_iff_ne_none.mpr (onBehalf_of_status_zero h he h0)⟩
  obtain ⟨pre, k, ret, post, p, has, hp, hfinal, hreq, hstatus⟩ := (exec_inv h).explained e hmem
  refine ⟨k, p, hp, hfinal, hreq.symm, ?_⟩
  rw [h0] at hstatus
  split at hstatus
  case isTrue hne => exact absurd hstatus.symm hne
  case isFalse =>
    rw [has, ← hstatus]
    simp

/-! ## What a step adds -/

theorem sem_arrivals {t t' : Shared} {o : Op} {c : ℤ} {res : Res o} (h : sem t o c = some (res, t')) :
    t'.arrivals = t.arrivals := by
  cases o
  case putEntry slot x type bvec =>
    simp only [sem, putEntry] at h
    repeat' split at h
    all_goals
      obtain ⟨-, rfl⟩ := Prod.mk.inj (Option.some_inj.mp h)
      rfl
  all_goals
    simp only [sem] at h
    repeat' split at h
    all_goals first
      | contradiction
      | obtain ⟨-, rfl⟩ := Prod.mk.inj (Option.some_inj.mp h)
        rfl

theorem advance_arrivals {α : Type} {t t' : Shared} {p p' : FProg α} {c : ℤ}
    (h : advance t p c = some (t', p')) : t'.arrivals = t.arrivals := by
  cases p with
  | ret a => simp [advance] at h
  | act o k =>
    rw [advance, Option.map_eq_some_iff] at h
    obtain ⟨⟨res, t''⟩, hsem, heq⟩ := h
    obtain ⟨rfl, rfl⟩ := Prod.mk.inj heq
    exact sem_arrivals hsem

/-- Only an answer adds an arrival, and only the backend's request thread adds a part to those it has got. -/
theorem step_adds {s s' : Sys} {l : Label} (hs : step mq s l = some s') :
    (s'.shared.arrivals = s.shared.arrivals ∨
      ∃ k ret, l = .answer k ret ∧ s'.shared.arrivals = s.shared.arrivals ++ [(k, ret)]) ∧
    s.fetched <+: s'.fetched := by
  cases l with
  | requestFn req =>
    rw [Disk.step, Option.some_inj] at hs
    subst hs
    refine ⟨.inl ?_, List.prefix_refl _⟩
    show (vcablkDiskRequestFn mq s.shared req).arrivals = _
    rw [vcablkDiskRequestFn]
    dsimp only
    split
    · split <;> rfl
    · rfl
  | dequeue =>
    simp only [Disk.step] at hs
    split at hs
    · simp at hs
    split at hs
    · simp at hs
    rw [Option.some_inj] at hs
    subst hs
    exact ⟨.inl rfl, List.prefix_refl _⟩
  | answer k ret =>
    simp only [Disk.step] at hs
    split at hs
    · split at hs
      · rw [Option.some_inj] at hs
        subst hs
        exact ⟨.inr ⟨k, ret, rfl, rfl⟩, List.prefix_refl _⟩
      · simp at hs
    · simp at hs
  | thread c =>
    simp only [Disk.step] at hs
    split at hs
    · simp at hs
    · rw [Option.some_inj] at hs
      subst hs
      exact ⟨.inl rfl, List.prefix_refl _⟩
    · rw [Option.some_inj] at hs
      subst hs
      exact ⟨.inl rfl, List.prefix_refl _⟩
    · obtain ⟨⟨t, p'⟩, ha, rfl⟩ := Option.map_eq_some_iff.mp hs
      exact ⟨.inl (advance_arrivals ha), List.prefix_refl _⟩
  | handler c =>
    simp only [Disk.step] at hs
    split at hs
    · simp at hs
    · rw [Option.some_inj] at hs
      subst hs
      exact ⟨.inl rfl, List.prefix_refl _⟩
    · obtain ⟨⟨t, p'⟩, ha, rfl⟩ := Option.map_eq_some_iff.mp hs
      exact ⟨.inl (advance_arrivals ha), List.prefix_refl _⟩
  | fetch c =>
    simp only [Disk.step] at hs
    split at hs
    · split at hs
      · simp at hs
      · rw [Option.some_inj] at hs
        subst hs
        exact ⟨.inl rfl, List.prefix_refl _⟩
    · split at hs
      all_goals
        rw [Option.some_inj] at hs
        subst hs
        exact ⟨.inl rfl, List.prefix_refl _⟩
    · rw [Option.some_inj] at hs
      subst hs
      refine ⟨.inl rfl, ?_⟩
      dsimp only
      split
      · exact List.prefix_refl _
      · exact List.prefix_append ..
    · obtain ⟨⟨t, p'⟩, ha, rfl⟩ := Option.map_eq_some_iff.mp hs
      exact ⟨.inl (advance_arrivals ha), List.prefix_refl _⟩

end Vcass.BlockIo.Disk
