import Vcass.BlockIo.Disk.Operations

/-!
# Block I/O frontend: taking parts out of the request ring

The backend finds the end of a part by the change of the cookie, since the ring does not store where
a part ends. The cookie of a part is that of its context, and the contexts of two parts that are not
answered are different. So `vcablk_bcknd_disk_get_next_request` returns exactly the oldest part in the
ring, while the frontend goes on publishing.
-/

namespace Vcass.BlockIo.Disk

open Conc RingCounter

variable {s s' : Shared} {p : Part} {before after : List Part}

abbrev FetcherSafe {α : Type} (Q : α → Shared → Prop) (p : FProg α) (s : Shared) : Prop :=
  Prog.Safe sem Good FetcherRely FetcherGuar Q p s

theorem take_of_isPrefix {α : Type} {l l' : List α} {n : ℕ} (h : l <+: l') (hn : n ≤ l.length) :
    l'.take n = l.take n := by
  obtain ⟨t, rfl⟩ := h
  exact List.take_append_of_le_length hn

/-! ## Neighbouring parts -/

theorem Good.ctx_ne {j k : ℕ} {q : Part} (h : Good s) (hj : j ∈ s.live) (hk : k ∈ s.live)
    (hjk : j ≠ k) (hp : s.parts[j]? = some p) (hq : s.parts[k]? = some q) : p.ctx ≠ q.ctx := by
  intro heq
  obtain ⟨free, -, -, howned⟩ := h.parts.owned
  have herase : 1 ≤ (ctxs s.parts (s.live.erase k)).count p.ctx :=
    List.count_pos_iff.mpr (mem_ctxs ((List.mem_erase_of_ne hjk).mpr hj) hp)
  have htwo : 2 ≤ (ctxs s.parts s.live).count p.ctx := by
    rw [ctxs, count_filterMap_erase hk, hq]
    rw [heq] at herase ⊢
    simpa [ctxs] using herase
  obtain ⟨-, hone⟩ := howned.eq_one (c := p.ctx) (by omega)
  omega

/-- The parts `before` are taken, `p` is the next one, and `after` were published when `last_add` was
read. -/
structure Window (before : List Part) (p : Part) (after : List Part) (s : Shared) : Prop where
  taken : s.taken = before.length
  parts : before ++ p :: after <+: s.parts

theorem Window.stable (h : Window before p after s) (hs : FetcherRely s s') :
    Window before p after s' := ⟨hs.taken.trans h.taken, h.parts.trans hs.parts⟩

theorem Window.take (h : Window before p after s) : s.parts.take s.taken = before := by
  obtain ⟨t, ht⟩ := h.parts
  rw [← ht, h.taken, List.append_assoc, List.take_left]

theorem Window.part (h : Window before p after s) : s.parts[before.length]? = some p := by
  refine getElem?_of_isPrefix h.parts ?_
  rw [List.getElem?_append_right le_rfl, Nat.sub_self]
  rfl

theorem Window.elems {i : ℕ} {e : VcablkRequest} (h : Window before p after s) (hI : Good s)
    (hi : (stream (p :: after))[i]? = some e) :
    s.ring.elems (vcaRbCounterToIdx (count vcablkQueueRequestsNums ((stream before).length + i))
      vcablkQueueRequestsNums) = e := by
  rw [queueRequestsNums_eq, vcaRbCounterToIdx_count, ← queueRequestsNums_eq]
  refine hI.ring.elems _ e ?_ ?_
  · rw [h.take]
    exact Nat.le_add_right ..
  · obtain ⟨t, ht⟩ := h.parts
    rw [← ht, stream_append, stream_append, List.append_assoc, List.append_assoc,
      List.getElem?_append_right (Nat.le_add_right ..), Nat.add_sub_cancel_left,
      List.getElem?_append_left (List.getElem?_eq_some_iff.mp hi).1]
    exact hi

theorem Window.count_eq_iff {i : ℕ} (h : Window before p after s) (hI : Good s)
    (hi : i ≤ (stream (p :: after)).length) :
    count vcablkQueueRequestsNums ((stream before).length + i) =
        count vcablkQueueRequestsNums (stream (before ++ p :: after)).length ↔
      i = (stream (p :: after)).length := by
  have hroom := hI.ring.room
  have hle : (stream (before ++ p :: after)).length ≤ (stream s.parts).length := by
    obtain ⟨t, ht⟩ := h.parts
    rw [← ht, stream_append _ t, List.length_append]
    exact Nat.le_add_right ..
  rw [h.take] at hroom
  rw [stream_append, List.length_append] at hle ⊢
  rw [count_eq_count (by decide) (by omega) (by omega), Nat.add_left_cancel_iff]

theorem stream_cons (p : Part) (ps : List Part) : stream (p :: ps) = p.entries ++ stream ps := rfl

theorem Window.cookie_ne {q : Part} {rest : List Part} (h : Window before p (q :: rest) s)
    (hI : Good s) : q.cookie ≠ p.cookie := by
  have hp := h.part
  have hq : s.parts[before.length + 1]? = some q := by
    refine getElem?_of_isPrefix h.parts ?_
    rw [List.getElem?_append_right (Nat.le_add_right ..), Nat.add_sub_cancel_left]
    rfl
  have hlive {k : ℕ} {x : Part} (hx : s.parts[k]? = some x) (hk : before.length ≤ k) : k ∈ s.live :=
    hI.parts.live_of_taken k (h.taken ▸ hk) (List.getElem?_eq_some_iff.mp hx).1
  have hne := hI.ctx_ne (hlive hq (Nat.le_succ _)) (hlive hp le_rfl) (Nat.succ_ne_self _) hq hp
  rw [Part.cookie, Part.cookie]
  exact fun heq ↦ hne (Nat.succ_injective heq)

/-! ## The code -/

/-- The loop collects the entries of the part, whatever it has collected so far. -/
theorem vcablkBckndDiskGetNextLoop_safe {fuel ck : ℕ} {done todo : List VcablkRequest}
    (h : Window before p after s) (hI : Good s) (hp : p.entries = done ++ todo)
    (hfuel : todo.length < fuel) (hck : ck = p.cookie ∨ ck = 0 ∧ done = []) :
    FetcherSafe (fun res s ↦ res.1 = p.entries ∧
        res.2 = count vcablkQueueRequestsNums (stream (before ++ [p])).length ∧
        Window before p after s)
      (vcablkBckndDiskGetNextLoop
        (count vcablkQueueRequestsNums (stream (before ++ p :: after)).length) fuel
        (count vcablkQueueRequestsNums ((stream before).length + done.length)) ck done) s := by
  obtain ⟨hne, hlen, hcookie⟩ := hI.parts.entries p (List.mem_of_getElem? h.part)
  have hlast : (stream before).length + p.entries.length = (stream (before ++ [p])).length := by
    rw [stream_append, List.length_append, stream_singleton]
  have hzero : p.cookie ≠ 0 := Nat.succ_ne_zero _
  induction todo generalizing s fuel ck done with
  | nil =>
    rw [List.append_nil] at hp
    have hck : ck = p.cookie := hck.resolve_right fun hnil ↦ hne (hp.trans hnil.2)
    cases fuel with
    | zero => exact absurd hfuel (Nat.not_lt_zero _)
    | succ fuel =>
      have hret : FetcherSafe (fun res s ↦ res.1 = p.entries ∧
          res.2 = count vcablkQueueRequestsNums (stream (before ++ [p])).length ∧
          Window before p after s) (pure (done,
            count vcablkQueueRequestsNums ((stream before).length + done.length))) s := by
        intro s₁ hs _
        exact ⟨hp.symm, by rw [← hp, hlast], h.stable hs⟩
      rw [vcablkBckndDiskGetNextLoop]
      split
      · exact hret
      case isFalse hmore =>
        cases after with
        | nil =>
          -- the part is the last one that was published when `last_add` was read
          refine absurd (.inl ((h.count_eq_iff hI ?_).mpr ?_)) hmore <;>
            simp [hp]
        | cons q rest =>
          obtain ⟨hqne, -, hqcookie⟩ := hI.parts.entries q (h.parts.subset (by simp))
          obtain ⟨e, es, hq⟩ := List.exists_cons_of_ne_nil hqne
          intro s₁ hs hI₁ _ e' s₂ hsem
          simp only [sem, Option.some_inj] at hsem
          obtain ⟨rfl, rfl⟩ := Prod.mk.inj hsem
          refine ⟨hI₁, ⟨ThreadRely.isRely.refl _, HandlerRely.isRely.refl _⟩, ?_⟩
          have hget : (stream (p :: q :: rest))[done.length]? = some e := by
            rw [stream_cons, stream_cons, hp, List.getElem?_append_right le_rfl, Nat.sub_self, hq]
            rfl
          have hecookie : e.cookie = q.cookie := hqcookie e (hq ▸ List.mem_cons_self)
          rw [(h.stable hs).elems hI₁ hget]
          dsimp only [Prog.bind]
          rw [hck, if_neg hzero, if_neg hzero, hecookie, if_pos (h.cookie_ne hI).symm]
          exact hret.stable FetcherRely.isRely hs
  | cons e todo ih =>
    have hlt : done.length < p.entries.length := by
      rw [hp, List.length_append, List.length_cons]
      omega
    have hle : p.entries.length ≤ (stream (p :: after)).length := by
      rw [stream_cons, List.length_append]
      exact Nat.le_add_right ..
    cases fuel with
    | zero => exact absurd hfuel (Nat.not_lt_zero _)
    | succ fuel =>
      have hmore : ¬ (count vcablkQueueRequestsNums ((stream before).length + done.length) =
          count vcablkQueueRequestsNums (stream (before ++ p :: after)).length ∨
          vcablkMaxPartsPerRequest ≤ done.length) := by
        rintro (hend | hmax)
        · have := (h.count_eq_iff hI (by omega)).mp hend
          omega
        · simp only [vcablkMaxPartsPerRequest] at hmax
          simp only [vcablkBioSplitSize] at hlen
          omega
      rw [vcablkBckndDiskGetNextLoop, if_neg hmore]
      intro s₁ hs hI₁ _ e' s₂ hsem
      simp only [sem, Option.some_inj] at hsem
      obtain ⟨rfl, rfl⟩ := Prod.mk.inj hsem
      refine ⟨hI₁, ⟨ThreadRely.isRely.refl _, HandlerRely.isRely.refl _⟩, ?_⟩
      have hget : (stream (p :: after))[done.length]? = some e := by
        rw [stream_cons, hp, List.append_assoc, List.getElem?_append_right le_rfl, Nat.sub_self]
        rfl
      have hecookie : e.cookie = p.cookie := hcookie e (hp ▸ by simp)
      have hnew : (if ck = 0 then e.cookie else ck) = p.cookie := by
        rcases hck with hck | ⟨hck, -⟩
        · rw [hck, if_neg hzero]
        · rw [hck, if_pos rfl, hecookie]
      rw [(h.stable hs).elems hI₁ hget]
      dsimp only [Prog.bind]
      rw [hnew, if_neg hzero, if_neg (not_not.mpr hecookie.symm), queueRequestsNums_eq, vcaRbCounterAdd_count,
        ← queueRequestsNums_eq, add_assoc]
      have hlength : done.length + 1 = (done ++ [e]).length := by simp
      rw [hlength]
      exact ih (h.stable hs) hI₁ (by simp [hp]) (by simpa using hfuel) (.inl rfl)

/-- What the backend gets when it asks for the `n`-th part. -/
structure Taken (n : ℕ) (res : List VcablkRequest × ℕ) (s : Shared) : Prop where
  taken : s.taken = n + 1
  part : ∃ p, s.parts[n]? = some p ∧ res.1 = p.entries
  lastUsed : res.2 = s.ring.lastUsed

theorem Window.take_succ (h : Window before p after s) :
    s.parts.take (s.taken + 1) = before ++ [p] := by
  rw [List.take_add_one, h.take, h.taken, h.part]
  rfl

/-- **The backend takes the oldest part out of the ring.** -/
theorem vcablkBckndDiskGetNextRequest_safe {n : ℕ} (htaken : s.taken = n) (hlt : n < s.parts.length)
    (hI : Good s) :
    FetcherSafe (Taken n) (vcablkBckndDiskGetNextRequest s.ring.lastUsed) s := by
  intro s₁ hs hI₁ _ _ s₂ hsem
  simp only [sem, Option.some_inj] at hsem
  obtain ⟨rfl, rfl⟩ := Prod.mk.inj hsem
  refine ⟨hI₁, ⟨ThreadRely.isRely.refl _, HandlerRely.isRely.refl _⟩, ?_⟩
  obtain ⟨before, p, after, hparts, hlen⟩ :
      ∃ before p after, s₁.parts = before ++ p :: after ∧ before.length = n := by
    have hlt₁ : n < s₁.parts.length := hlt.trans_le hs.parts.length_le
    refine ⟨s₁.parts.take n, s₁.parts[n], s₁.parts.drop (n + 1), ?_, ?_⟩
    · rw [List.getElem_cons_drop, List.take_append_drop]
    · rw [List.length_take, min_eq_left hlt₁.le]
  have hw : Window before p after s₁ := by
    refine ⟨?_, hparts ▸ List.prefix_refl _⟩
    rw [hs.taken, htaken, hlen]
  have hused : s.ring.lastUsed = count vcablkQueueRequestsNums (stream before).length := by
    rw [hI.ring.lastUsed, htaken, ← take_of_isPrefix hs.parts hlt.le, hparts, ← hlen, List.take_left]
  -- the ring is not empty
  have hne : count vcablkQueueRequestsNums (stream before).length ≠
      count vcablkQueueRequestsNums (stream (before ++ p :: after)).length := by
    intro heq
    have := (hw.count_eq_iff hI₁ (Nat.zero_le _)).mp heq
    have hpos := List.length_pos_iff.mpr (hI₁.parts.entries p (by simp [hparts])).1
    rw [stream_cons, List.length_append] at this
    omega
  rw [hused, hI₁.ring.lastAdd, hparts]
  dsimp only [Prog.bind]
  rw [if_neg hne]
  refine Prog.Safe.bind FetcherRely.isRely ((vcablkBckndDiskGetNextLoop_safe hw hI₁
    (List.nil_append p.entries).symm ?_ (.inr ⟨rfl, rfl⟩)).mono
    fun res s₂ hI₂ ⟨hres, hcnt, hw₂⟩ ↦ ?_)
  · have := (hI₁.parts.entries p (by simp [hparts])).2.1
    simp only [vcablkBioSplitSize, vcablkQueueRequestsNums] at this ⊢
    omega
  · intro s₃ hs₃ hI₃ _ _ s₄ hsem
    simp only [sem, Option.some_inj] at hsem
    obtain ⟨-, rfl⟩ := Prod.mk.inj hsem
    have hw₃ := hw₂.stable hs₃
    have hpart := hw₃.part
    have hlt₃ : s₃.taken < s₃.parts.length := hw₃.taken ▸ (List.getElem?_eq_some_iff.mp hpart).1
    obtain ⟨hgood, hguar⟩ := hI₃.setLastUsed hlt₃ (hcnt.trans (by rw [hw₃.take_succ]))
    refine ⟨hgood, hguar, fun s₅ hs₅ hI₅ ↦ ⟨?_, ⟨p, ?_, hres⟩, ?_⟩⟩
    · rw [hs₅.taken, Shared.setLastUsed_taken, hw₃.taken, hlen]
    · rw [← hlen]
      exact getElem?_of_isPrefix hs₅.parts hpart
    · rw [hI₅.ring.lastUsed, hs₅.taken, Shared.setLastUsed_taken, take_of_isPrefix hs₅.parts hlt₃,
        Shared.setLastUsed_parts, hw₃.take_succ]
      exact hcnt

end Vcass.BlockIo.Disk
