import Vcass.BlockIo.Disk.Runs

/-!
# Block I/O frontend: parts and contexts

What the other components see of the frontend. Parts are published and taken but never withdrawn, and
apart from an answer no step counts as one (`Grows`). The parts that are not answered yet have
different contexts, all of them in use; so there are at most `VCABLK_BIO_CTX_POOL_SIZE` of them.
-/

namespace Vcass.BlockIo.Disk

open Conc

/-! ## History -/

/-- What only grows in the frontend, and what only an answer changes. -/
structure Grows (d d' : Sys) : Prop where
  arrivals : d'.shared.arrivals = d.shared.arrivals
  parts : d.shared.parts <+: d'.shared.parts
  taken : d.shared.taken ≤ d'.shared.taken
  handler : d.handler = none → d'.handler = none

theorem sem_history {s s' : Shared} {o : Op} {c : ℤ} {res : Res o}
    (h : sem s o c = some (res, s')) :
    s'.arrivals = s.arrivals ∧ s.parts <+: s'.parts ∧ s.taken ≤ s'.taken := by
  cases o
  case putEntry slot x type bvec =>
    simp only [sem, putEntry] at h
    repeat' split at h
    all_goals
      obtain ⟨-, rfl⟩ := Prod.mk.inj (Option.some_inj.mp h)
      exact ⟨rfl, List.prefix_refl _, le_rfl⟩
  case requestStart r =>
    simp only [sem] at h
    split at h
    all_goals
      obtain ⟨-, rfl⟩ := Prod.mk.inj (Option.some_inj.mp h)
    · exact ⟨rfl, List.prefix_refl _, le_rfl⟩
    · exact ⟨rfl, List.prefix_append _ _, le_rfl⟩
  case setLastUsed cnt =>
    obtain ⟨-, rfl⟩ := Prod.mk.inj (Option.some_inj.mp h)
    exact ⟨rfl, List.prefix_refl _, Nat.le_succ _⟩
  all_goals
    simp only [sem] at h
    repeat' split at h
    all_goals first
      | contradiction
      | obtain ⟨-, rfl⟩ := Prod.mk.inj (Option.some_inj.mp h)
        exact ⟨rfl, List.prefix_refl _, le_rfl⟩

theorem advance_history {α : Type} {s s' : Shared} {p p' : FProg α} {c : ℤ}
    (h : advance s p c = some (s', p')) :
    s'.arrivals = s.arrivals ∧ s.parts <+: s'.parts ∧ s.taken ≤ s'.taken := by
  cases p with
  | ret a => simp [advance] at h
  | act o k =>
    rw [advance, Option.map_eq_some_iff] at h
    obtain ⟨⟨res, s''⟩, hsem, heq⟩ := h
    obtain ⟨rfl, -⟩ := Prod.mk.inj heq
    exact sem_history hsem

theorem Grows.of_shared {d : Sys} {t : Shared} {thread : Option (ℕ × FProg (Option ℕ))}
    {handler : Option (FProg Unit)} {fetcher : Fetcher} {fetched : List (List VcablkRequest)}
    {target : ℕ} (h : t.arrivals = d.shared.arrivals ∧ d.shared.parts <+: t.parts ∧
      d.shared.taken ≤ t.taken) (hhandler : d.handler = none → handler = none) :
    Grows d ⟨t, thread, handler, fetcher, fetched, target⟩ :=
  ⟨h.1, h.2.1, h.2.2, hhandler⟩

theorem Grows.of_step {mq : Bool} {d d' : Sys} {l : Label}
    (hl : ∀ k ret, l ≠ .answer k ret) (h : Disk.step mq d l = some d') : Grows d d' := by
  have hrefl : d.shared.arrivals = d.shared.arrivals ∧ d.shared.parts <+: d.shared.parts ∧
      d.shared.taken ≤ d.shared.taken := ⟨rfl, List.prefix_refl _, le_rfl⟩
  cases l with
  | requestFn req =>
    rw [Disk.step, Option.some_inj] at h
    subst h
    refine .of_shared ?_ id
    rw [vcablkDiskRequestFn]
    split
    · split <;> exact hrefl
    · exact hrefl
  | dequeue =>
    simp only [Disk.step] at h
    split at h
    · cases h
    split at h <;> cases h
    exact .of_shared hrefl id
  | thread c =>
    simp only [Disk.step] at h
    split at h
    · cases h
    · cases h
      exact .of_shared hrefl id
    · cases h
      exact .of_shared hrefl id
    · obtain ⟨⟨t, p'⟩, ha, rfl⟩ := Option.map_eq_some_iff.mp h
      exact .of_shared (advance_history ha) id
  | answer k ret => exact absurd rfl (hl k ret)
  | handler c =>
    simp only [Disk.step] at h
    split at h
    · cases h
    · cases h
      exact .of_shared hrefl fun _ ↦ rfl
    · rename_i p _ heq
      obtain ⟨⟨t, p'⟩, ha, rfl⟩ := Option.map_eq_some_iff.mp h
      exact .of_shared (advance_history ha) fun hnone ↦ absurd (heq.symm.trans hnone) (by simp)
  | fetch c =>
    simp only [Disk.step] at h
    split at h
    · split at h <;> cases h
      exact .of_shared hrefl id
    · split at h <;> cases h <;> exact .of_shared hrefl id
    · cases h
      exact .of_shared hrefl id
    · obtain ⟨⟨t, p'⟩, ha, rfl⟩ := Option.map_eq_some_iff.mp h
      exact .of_shared (advance_history ha) id

/-! ## Contexts -/

variable {s : Shared} {k k' : ℕ} {p p' : Part}

theorem ctxs_eq_map {parts : List Part} {ks : List ℕ} (h : ∀ k ∈ ks, k < parts.length) :
    ctxs parts ks = ks.map fun k ↦ (parts[k]?.map Part.ctx).getD 0 := by
  rw [ctxs, ← List.filterMap_eq_map]
  refine List.filterMap_congr fun k hk ↦ ?_
  simp [List.getElem?_eq_getElem (h k hk)]

theorem Good.ctxs_nodup (h : Good s) : (ctxs s.parts s.live).Nodup := by
  obtain ⟨free, -, -, howned⟩ := h.parts.owned
  refine List.nodup_iff_count_le_one.mpr fun c ↦ ?_
  have := howned c
  split at this <;> omega

theorem Good.eq_of_cookie_eq (h : Good s) (hk : k ∈ s.live) (hk' : k' ∈ s.live)
    (hp : s.parts[k]? = some p) (hp' : s.parts[k']? = some p') (hc : p.cookie = p'.cookie) :
    k = k' := by
  have hnd := h.ctxs_nodup
  rw [ctxs_eq_map h.parts.live_lt] at hnd
  refine List.inj_on_of_nodup_map hnd hk hk' ?_
  rw [hp, hp']
  exact Nat.succ_injective hc

/-- There are no more unanswered parts than usable contexts: one context is always in the pool. -/
theorem Good.live_length_le (h : Good s) : s.live.length ≤ vcablkBioCtxPoolSize := by
  obtain ⟨free, hholds, -, howned⟩ := h.parts.owned
  obtain ⟨rest, hfree, -⟩ := hholds.linked
  have hhead : s.pool.head ∈ free := hfree ▸ List.mem_cons_self
  have hnd : (s.pool.head :: ctxs s.parts s.live).Nodup :=
    List.nodup_cons.mpr ⟨(howned.of_free hhead).1, h.ctxs_nodup⟩
  have hsub : s.pool.head :: ctxs s.parts s.live ⊆ List.range (vcablkBioCtxPoolSize + 1) := by
    intro c hc
    have hpos : 0 < free.count c + (ctxs s.parts s.live).count c := by
      rcases List.mem_cons.mp hc with rfl | hc
      · have := List.count_pos_iff.mpr hhead
        omega
      · have := List.count_pos_iff.mpr hc
        omega
    exact List.mem_range.mpr (howned.eq_one (c := c) (by omega)).1
  have hlen := hnd.length_le_of_subset hsub
  rw [List.length_cons, List.length_range, ctxs_eq_map h.parts.live_lt, List.length_map] at hlen
  omega

/-- The context of an unanswered part is in use. -/
theorem Good.getById_of_live (h : Good s) (hk : k ∈ s.live) (hp : s.parts[k]? = some p) :
    s.pool.vcablkPoolGetById p.ctx = some p.ctx := by
  obtain ⟨free, hholds, hnum, howned⟩ := h.parts.owned
  have hpos := List.count_pos_iff.mpr (mem_ctxs hk hp)
  obtain ⟨hlt, hcount⟩ := howned.eq_one (c := p.ctx) (by omega)
  exact hholds.getById.mpr ⟨hnum.symm ▸ hlt, List.count_eq_zero.mp (by omega)⟩

end Vcass.BlockIo.Disk
