import Vcass.PlxDma.Invariant

/-!
# PLX DMA: the steps keep the invariant

One lemma for each kind of step. What a step writes to an entry of the ring is what the numbers after the
step say about it, and for every other entry the numbers say the same as before.
-/

namespace Vcass.PlxDma

open Conc RingBuffer RingCounter
open Function (update)

variable {s s' : Sys}

/-! ## The numbers -/

section Numbers

theorem Places.freed_le_head (h : Places s) : s.freed ≤ s.headNum := h.freed_le.trans h.passes_le_head

theorem Places.written_lt (h : Places s) : s.written.length < s.freed + ringSize := by
  have hroom := h.room
  omega

theorem Places.headNum_le (_ : Places s) : s.headNum ≤ s.written.length := Nat.sub_le _ _

theorem Places.done_lt (h : Places s) : s.completed.length ≤ s.written.length :=
  h.done_le.trans (Nat.sub_le _ _)

end Numbers

/-! ## The preparation -/

section Prep

theorem Inv.set_prep (h : Inv s) {q : Prep} (hahead : q.ahead = s.prep.ahead) (hunset : q.unset = s.prep.unset)
    (hunsub : q.unsubmitted = s.prep.unsubmitted) (hneed : s.written.length + q.need < s.freed + ringSize)
    (hok : q.Ok s.written.length) : Inv { s with prep := q } := by
  have hhead : ({ s with prep := q } : Sys).headNum = s.headNum := by
    simp only [Sys.headNum, hahead]
  have hvalid : ({ s with prep := q } : Sys).validNum = s.validNum := by
    simp only [Sys.validNum, hunset]
  have hp := h.places
  refine ⟨⟨?_, hp.lastTail, hp.hw, hp.freed_le, hp.passes_le_done, ?_, ?_, hp.cleanDone_le, hneed, hok, ?_⟩,
    h.completed, ?_, h.tx, ?_, h.cookie, h.written, h.stages, h.clobbered⟩
  · rw [hhead]
    exact hp.head
  · rw [hhead]
    exact hp.passes_le_head
  · rw [hvalid]
    exact hp.done_le
  · rw [hhead]
    exact hp.cleanup
  · rw [hvalid]
    exact h.desc
  · simp only [hunsub]
    exact h.subs

theorem prep_inv (h : Inv s) {len : UInt64} (hlen : 0 < (numDesc len).toInt)
    (hs' : step s (.prep len) = some s') : Inv s' := by
  rw [step] at hs'
  split_ifs at hs' with hidle
  obtain rfl := Option.some_inj.mp hs'
  exact h.set_prep (by rw [hidle]; rfl) (by rw [hidle]; rfl) (by rw [hidle]; rfl) h.places.written_lt hlen

theorem spaceFound_inv (h : Inv s) {n : BitVec 32} (hahead : s.prep.ahead = 0) (hunset : s.prep.unset = 0)
    (hunsub : s.prep.unsubmitted = 0) (hn : 0 < n.toInt)
    (hcount : ¬(plxDmaRingCount s.head s.lastTail : ℤ) < n.toInt) :
    Inv (spaceFound s n (plxDmaRingCount s.head s.lastTail)) := by
  have hp := h.places
  have hnat := toNat_eq_toInt hn
  have hhead : s.headNum = s.written.length := by rw [Sys.headNum, hahead, Nat.sub_zero]
  have hle := hp.freed_le_head
  have hlt := hp.written_lt
  rw [hhead] at hle
  have hspace : plxDmaRingCount s.head s.lastTail = ringSize - 1 - (s.written.length - s.freed) := by
    rw [hp.head, hp.lastTail, hhead, ringCount_slot hle hlt]
  rw [hspace] at hcount ⊢
  have hne : ¬(ringSize - 1 - (s.written.length - s.freed) = 0 ∨ n = 0) := by
    rintro (hzero | rfl)
    · omega
    · exact absurd hn (by decide)
  rw [spaceFound, if_neg hne]
  refine h.set_prep hahead.symm hunset.symm hunsub.symm ?_ ?_
  · simp only [Prep.need]
    omega
  · simp only [Prep.Ok]
    omega

theorem Inv.desc_head (h : Inv s) (hahead : s.prep.ahead = 0) : (s.desc s.head).num = none := by
  have hp := h.places
  have hhead : s.headNum = s.written.length := by rw [Sys.headNum, hahead, Nat.sub_zero]
  have hat := h.desc s.headNum hp.freed_le_head (by rw [hhead]; exact hp.written_lt)
  rw [hp.head, hat.eq_free (by omega)]

/-- The numbers after a descriptor is written: valid, with more to come, or not yet valid. -/
theorem program_places (h : Places s) {n : BitVec 32} (hprep : s.prep = .program n) :
    Places (program s n) := by
  have hn : 0 < n.toNat := by
    have hok := h.prep
    rwa [hprep] at hok
  have hhead : s.headNum = s.written.length := by rw [Sys.headNum, hprep]; rfl
  have hvalid : s.validNum = s.written.length := by rw [Sys.validNum, hprep]; rfl
  have hlen : (program s n).written.length = s.written.length + 1 := by simp [program]
  have hahead : (program s n).prep.ahead = 1 := by
    simp only [program]
    split_ifs <;> rfl
  have hhead' : (program s n).headNum = s.headNum := by
    rw [Sys.headNum, hlen, hahead, hhead, Nat.add_sub_cancel]
  have hvalid' : s.validNum ≤ (program s n).validNum := by
    have hle : (program s n).prep.unset ≤ 1 := by
      simp only [program]
      split_ifs
      · exact le_rfl
      · exact Nat.zero_le _
    rw [hvalid, Sys.validNum, hlen]
    omega
  have hroom := h.room
  rw [hprep, Prep.need] at hroom
  refine ⟨?_, h.lastTail, h.hw, h.freed_le, h.passes_le_done, ?_, h.done_le.trans hvalid', h.cleanDone_le,
    ?_, ?_, ?_⟩
  · rw [hhead']
    exact h.head
  · rw [hhead']
    exact h.passes_le_head
  · rw [hlen]
    simp only [program]
    split_ifs with hlast
    · simp only [Prep.need]
      omega
    · simp only [Prep.need, toNat_sub_one hn]
      omega
  · rw [hlen]
    simp only [program]
    split_ifs with hlast
    · exact Nat.succ_pos _
    · rw [sub_one_eq_zero_iff hn] at hlast
      refine ⟨?_, Nat.succ_pos _⟩
      rw [toNat_sub_one hn]
      omega
  · rw [hhead']
    exact h.cleanup

theorem program_inv (h : Inv s) {n : BitVec 32} (hprep : s.prep = .program n) : Inv (program s n) := by
  have hp := h.places
  have hhead : s.headNum = s.written.length := by rw [Sys.headNum, hprep]; rfl
  have hvalid : s.validNum = s.written.length := by rw [Sys.validNum, hprep]; rfl
  have hfree := h.desc_head (by rw [hprep]; rfl)
  have hslot : s.head = slot ringSize s.written.length := by rw [hp.head, hhead]
  have hdone := hp.done_lt
  have hpasses := hp.passes_le_head
  have hvalid' : (program s n).validNum = s.written.length + if n - 1 = 0 then 0 else 1 := by
    simp only [program, Sys.validNum, List.length_append, List.length_singleton]
    split_ifs <;> simp [Prep.unset]
  refine ⟨program_places hp hprep, h.completed, ?_, h.tx, ?_, h.cookie, ?_, h.stages, ?_⟩
  · rw [hvalid']
    simp only [program, List.length_append, List.length_singleton, hslot]
    refine h.desc.update (hp.freed_le_head.trans hp.headNum_le) hp.written_lt ?_ fun q d hq hd ↦ ?_
    · -- The new descriptor is valid unless it is the last one.
      refine descAt_used (by omega) ?_
      rw [Bool.not_eq_true', decide_eq_false_iff_not]
      split_ifs with hlast
      · exact iff_of_false (not_not.mpr hlast) (by omega)
      · exact iff_of_true hlast (by omega)
    · refine hd.congr (by omega) fun _ _ ↦ ?_
      split_ifs <;> omega
  · have hunsub : (program s n).prep.unsubmitted = 1 := by
      simp only [program]
      split_ifs <;> rfl
    have hlen : (program s n).written.length = s.written.length + 1 := List.length_append
    rw [hunsub, hlen, Nat.add_sub_cancel]
    exact h.subs.mono (Nat.sub_le _ _)
  · intro p t ht
    simp only [program] at ht ⊢
    rcases Nat.lt_or_ge p s.written.length with hlt | hge
    · rw [List.getElem?_append_left hlt] at ht
      exact h.written p t ht
    · -- The new descriptor is of the transaction to be submitted next.
      obtain ⟨hlt, -⟩ := List.getElem?_eq_some_iff.mp ht
      rw [List.length_append, List.length_singleton] at hlt
      obtain rfl : p = s.written.length := by omega
      rw [List.getElem?_concat_length, Option.some_inj] at ht
      subst ht
      refine ⟨le_rfl, fun sub hsub ↦ ?_⟩
      rw [List.getElem?_eq_none le_rfl] at hsub
      cases hsub
  · simp only [program, hfree, h.clobbered]
    rfl

theorem Inv.move_head (h : Inv s) {q : Prep} (hahead : s.prep.ahead = 1) (hahead' : q.ahead = 0)
    (hunset : s.prep.unset = q.unset) (hunsub' : q.unsubmitted = 0) (hneed : q.need = s.prep.need)
    (hpos : 0 < s.written.length) (hok : q.Ok s.written.length) :
    Inv { s with head := ringInc s.head, prep := q } := by
  have hp := h.places
  have hhead : ({ s with head := ringInc s.head, prep := q } : Sys).headNum = s.headNum + 1 := by
    simp only [Sys.headNum, hahead, hahead']
    omega
  have hvalid : ({ s with head := ringInc s.head, prep := q } : Sys).validNum = s.validNum := by
    simp only [Sys.validNum, hunset]
  refine ⟨⟨?_, hp.lastTail, hp.hw, hp.freed_le, hp.passes_le_done, ?_, ?_, hp.cleanDone_le, ?_, hok, ?_⟩,
    h.completed, ?_, h.tx, h.subs.mono ?_, h.cookie, h.written, h.stages, h.clobbered⟩
  · rw [hhead, ← ringInc_slot, ← hp.head]
  · rw [hhead]
    exact hp.passes_le_head.trans (Nat.le_succ _)
  · rw [hvalid]
    exact hp.done_le
  · simp only [hneed]
    exact hp.room
  · rw [hhead]
    exact hp.cleanup.mono le_rfl (Nat.le_succ _)
  · rw [hvalid]
    exact h.desc
  · simp only [hunsub']
    exact Nat.sub_le _ _

theorem prepStep_inv (h : Inv s) (hs' : prepStep s = some s') : Inv s' := by
  have hok := h.places.prep
  rw [prepStep] at hs'
  cases hprep : s.prep with
  | space n =>
    rw [hprep] at hs' hok
    obtain rfl := Option.some_inj.mp hs'
    split_ifs with hcount
    · exact h.set_prep (by rw [hprep]; rfl) (by rw [hprep]; rfl) (by rw [hprep]; rfl) h.places.written_lt hok
    · exact spaceFound_inv h (by rw [hprep]; rfl) (by rw [hprep]; rfl) (by rw [hprep]; rfl) hok hcount
  | full n =>
    rw [hprep] at hs' hok
    obtain rfl := Option.some_inj.mp hs'
    split_ifs with hcount
    · exact h.set_prep (by rw [hprep]; rfl) (by rw [hprep]; rfl) (by rw [hprep]; rfl) h.places.written_lt
        trivial
    · exact spaceFound_inv h (by rw [hprep]; rfl) (by rw [hprep]; rfl) (by rw [hprep]; rfl) hok hcount
  | program n =>
    rw [hprep] at hs'
    obtain rfl := Option.some_inj.mp hs'
    exact program_inv h hprep
  | advance n =>
    rw [hprep] at hs' hok
    obtain rfl := Option.some_inj.mp hs'
    exact h.move_head (by rw [hprep]; rfl) rfl (by rw [hprep]; rfl) rfl (by rw [hprep]; rfl) hok.2 hok.1
  | idle | prepared | validate | incHead =>
    rw [hprep] at hs'
    cases hs'

end Prep

/-! ## The submission -/

section Submit

variable {subs : List Sub} {sub : Sub} {passed called : List ℕ} {k passes p c : ℕ} {x : Tx}

theorem getElem?_concat_cases {t : ℕ} {a : Sub} (h : (subs ++ [sub])[t]? = some a) :
    subs[t]? = some a ∨ t = subs.length ∧ a = sub := by
  rcases Nat.lt_or_ge t subs.length with hlt | hge
  · rw [List.getElem?_append_left hlt] at h
    exact .inl h
  · obtain ⟨hlt, -⟩ := List.getElem?_eq_some_iff.mp h
    rw [List.length_append, List.length_singleton] at hlt
    obtain rfl : t = subs.length := by omega
    rw [List.getElem?_concat_length, Option.some_inj] at h
    exact .inr ⟨rfl, h.symm⟩

theorem getElem?_concat_of_some {t : ℕ} {a : Sub} (h : subs[t]? = some a) : (subs ++ [sub])[t]? = some a := by
  rw [List.getElem?_append_left (List.getElem?_eq_some_iff.mp h).1, h]

theorem SubsOk.snoc (h : SubsOk subs k passes sub.last) (hpasses : passes ≤ sub.last) (hcookie : sub.cookie ≠ 0) :
    SubsOk (subs ++ [sub]) k passes (sub.last + 1) where
  le := h.le.trans (by simp)
  increasing i j a b hij ha hb := by
    rcases getElem?_concat_cases ha with ha' | ⟨rfl, rfl⟩
    · rcases getElem?_concat_cases hb with hb' | ⟨rfl, rfl⟩
      · exact h.increasing i j a b hij ha' hb'
      · exact h.bound a (List.mem_of_getElem? ha')
    · have hlt := (List.getElem?_eq_some_iff.mp hb).1
      rw [List.length_append, List.length_singleton] at hlt
      omega
  passed t a ht ha := by
    rcases getElem?_concat_cases ha with ha | ⟨rfl, rfl⟩
    · exact h.passed t a ht ha
    · exact absurd h.le (by omega)
  pending t a ht ha := by
    rcases getElem?_concat_cases ha with ha | ⟨rfl, rfl⟩
    · exact h.pending t a ht ha
    · exact hpasses
  bound a ha := by
    rcases List.mem_append.mp ha with ha | ha
    · exact (h.bound a ha).trans (Nat.lt_succ_self _)
    · rw [List.mem_singleton.mp ha]
      exact Nat.lt_succ_self _
  cookie a ha := by
    rcases List.mem_append.mp ha with ha | ha
    · exact h.cookie a ha
    · rw [List.mem_singleton.mp ha]
      exact hcookie

theorem TxAt.snoc (h : TxAt subs k p x) (hne : p ≠ sub.last) : TxAt (subs ++ [sub]) k p x := by
  rcases h with ⟨t, a, ht, ha, hlast, hx⟩ | ⟨hnone, hx⟩
  · exact .inl ⟨t, a, ht, getElem?_concat_of_some ha, hlast, hx⟩
  · refine .inr ⟨fun t a ht ha ↦ ?_, hx⟩
    rcases getElem?_concat_cases ha with ha | ⟨rfl, rfl⟩
    · exact hnone t a ht ha
    · exact hne.symm

/-- The passed transactions are older than a new one. -/
theorem Stages.snoc (h : Stages subs passed called c) (hle : passed.length ≤ subs.length) :
    Stages (subs ++ [sub]) passed called c := by
  have hlt : ∀ t ∈ passed, t < subs.length := fun t ht ↦ by
    rw [h.passed_eq, List.mem_range] at ht
    omega
  refine ⟨h.passed_eq, ?_, ?_⟩
  · rw [h.called_eq]
    refine List.filter_congr fun t ht ↦ ?_
    rw [List.map_append, List.getD_eq_getElem?_getD, List.getD_eq_getElem?_getD,
      List.getElem?_append_left (by rw [List.length_map]; exact hlt t ht)]
  · rw [h.cookie_eq]
    cases hlast : passed.getLast? with
    | none => rfl
    | some t =>
      rw [Option.bind_some, Option.bind_some,
        List.getElem?_append_left (hlt t (List.mem_of_getLast? hlast))]

theorem nextCookie_ne_zero (c : ℕ) : nextCookie c ≠ 0 := by
  rw [nextCookie]
  split_ifs <;> omega

theorem Inv.tx_head (h : Inv s) (hprep : s.prep = .prepared) : s.tx s.head = Tx.free := by
  have hp := h.places
  have hle := hp.headNum_le
  have hlt := hp.written_lt
  have hat := h.tx s.headNum hp.freed_le_head (by omega)
  rw [← hp.head] at hat
  rcases hat with ⟨t, sub, -, hsub, hlast, -⟩ | ⟨-, hfree⟩
  · have hbound := h.subs.bound sub (List.mem_of_getElem? hsub)
    rw [hlast, Sys.headNum, hprep] at hbound
    exact absurd hbound (Nat.lt_irrefl _)
  · exact hfree

theorem submit_inv (h : Inv s) {callback : Bool} (hs' : submit s callback = some s') : Inv s' := by
  rw [submit] at hs'
  cases hprep : s.prep with
  | prepared =>
    rw [hprep] at hs'
    obtain rfl := Option.some_inj.mp hs'
    have hp := h.places
    have hpos : 0 < s.written.length := by
      have hok := hp.prep
      rwa [hprep] at hok
    have hhead : s.headNum = s.written.length - 1 := by rw [Sys.headNum, hprep]; rfl
    have hfree := h.tx_head hprep
    have hpasses := hp.passes_le_head
    have hroom := hp.written_lt
    set sub : Sub := ⟨s.written.length - 1, nextCookie s.cookie, callback⟩ with hsub
    have hbound : SubsOk s.subs s.passed.length s.passes sub.last := by
      have hsubs := h.subs
      rwa [hprep] at hsubs
    refine ⟨⟨?_, hp.lastTail, hp.hw, hp.freed_le, hp.passes_le_done, ?_, ?_, hp.cleanDone_le, hroom, hpos, ?_⟩,
      h.completed, ?_, ?_, ?_, Nat.pos_of_ne_zero (nextCookie_ne_zero _), fun p t ht ↦ ?_,
      h.stages.snoc h.subs.le, ?_⟩
    · exact hp.head.trans (by rw [hhead]; rfl)
    · exact hpasses.trans (le_of_eq hhead)
    · have hdone := hp.done_le
      rwa [Sys.validNum, hprep] at hdone
    · exact hp.cleanup.mono le_rfl (le_of_eq hhead)
    · have hdesc := h.desc
      rwa [Sys.validNum, hprep] at hdesc
    · -- The entry is the one of the last descriptor.
      rw [hp.head, hhead]
      refine h.tx.update (hp.freed_le_head.trans (le_of_eq hhead)) (by omega) ?_ fun q y hq hy ↦ hy.snoc hq
      refine .inl ⟨s.subs.length, sub, h.subs.le, List.getElem?_concat_length, rfl, ?_⟩
      rw [← hhead, ← hp.head, hfree]
      rfl
    · have hsnoc := hbound.snoc (hpasses.trans (le_of_eq hhead)) (nextCookie_ne_zero _)
      exact hsnoc.mono (by rw [hsub]; exact le_of_eq (Nat.sub_add_cancel hpos))
    · obtain ⟨hle, hlast⟩ := h.written p t ht
      refine ⟨hle.trans (by simp), fun a ha ↦ ?_⟩
      rcases getElem?_concat_cases ha with ha' | ⟨-, rfl⟩
      · exact hlast a ha'
      · exact Nat.le_sub_one_of_lt (List.getElem?_eq_some_iff.mp ht).1
    · simp [h.clobbered, hfree, Tx.free]
  | idle | space _ | full _ | program _ | advance _ | validate | incHead =>
    rw [hprep] at hs'
    cases hs'

/-- The last descriptor of the transaction becomes valid. -/
theorem validate_inv (h : Inv s) (hprep : s.prep = .validate) :
    Inv { s with desc := update s.desc s.head { s.desc s.head with valid := true }, prep := .incHead } := by
  have hp := h.places
  have hpos : 0 < s.written.length := by
    have hok := hp.prep
    rwa [hprep] at hok
  have hhead : s.headNum = s.written.length - 1 := by rw [Sys.headNum, hprep]; rfl
  have hvalid : s.validNum = s.written.length - 1 := by rw [Sys.validNum, hprep]; rfl
  have hroom := hp.written_lt
  have hdone := hp.done_le
  have hpasses := hp.passes_le_head
  have hat := h.desc s.headNum hp.freed_le_head (by omega)
  refine ⟨⟨?_, hp.lastTail, hp.hw, hp.freed_le, hp.passes_le_done, ?_, ?_, hp.cleanDone_le, hroom, hpos, ?_⟩,
    h.completed, ?_, h.tx, h.subs.mono (Nat.sub_le _ _), h.cookie, h.written, h.stages, h.clobbered⟩
  · exact hp.head.trans (by rw [hhead]; rfl)
  · exact hpasses.trans (le_of_eq hhead)
  · exact hp.done_lt
  · exact hp.cleanup.mono le_rfl (le_of_eq hhead)
  · have hnew : ({ s.desc s.head with valid := true } : Desc) = ⟨true, some s.headNum⟩ := by
      rw [Desc.mk.injEq, hp.head]
      exact ⟨rfl, hat.num_eq (by omega)⟩
    show Window ringSize (update s.desc s.head { s.desc s.head with valid := true })
      (DescAt s.passes s.completed.length s.written.length s.written.length) s.freed
    rw [hnew, hp.head]
    refine h.desc.update hp.freed_le_head (by omega) (descAt_used (by omega) ?_) fun q d hq hd ↦ ?_
    · exact iff_of_true rfl (by omega)
    · exact hd.congr Iff.rfl fun _ _ ↦ by omega

theorem submitStep_inv (h : Inv s) (hs' : submitStep s = some s') : Inv s' := by
  have hok := h.places.prep
  rw [submitStep] at hs'
  cases hprep : s.prep with
  | validate =>
    rw [hprep] at hs'
    obtain rfl := Option.some_inj.mp hs'
    exact validate_inv h hprep
  | incHead =>
    rw [hprep] at hs' hok
    obtain rfl := Option.some_inj.mp hs'
    exact h.move_head (by rw [hprep]; rfl) rfl (by rw [hprep]; rfl) rfl (by rw [hprep]; rfl) hok trivial
  | idle | space _ | full _ | program _ | advance _ | prepared =>
    rw [hprep] at hs'
    cases hs'

end Submit

/-! ## The hardware -/

theorem complete_inv (h : Inv s) (hs' : complete s = some s') : Inv s' := by
  rw [complete] at hs'
  split_ifs at hs' with hvalid
  obtain rfl := Option.some_inj.mp hs'
  have hp := h.places
  have hroom := hp.written_lt
  have hdone := hp.done_lt
  have hpasses := hp.passes_le_done
  have hfreed := hp.freed_le
  have hat := h.desc s.completed.length (by omega) (by omega)
  rw [hp.hw] at hvalid
  -- A valid descriptor is one that was written and is not done.
  have hin : s.passes ≤ s.completed.length ∧ s.completed.length < s.written.length := by
    by_contra hout
    rw [hat.eq_free hout] at hvalid
    cases hvalid
  have hlt := ((hat.valid_iff hin).mp hvalid).2
  have hnum := hat.num_eq hin
  have hdoneList : s.completed ++ (s.desc s.hw).num.toList = List.range (s.completed.length + 1) := by
    rw [hp.hw, hnum, List.range_succ, ← h.completed]
    rfl
  have hlen : (s.completed ++ (s.desc s.hw).num.toList).length = s.completed.length + 1 := by
    rw [hdoneList, List.length_range]
  have hnew : ({ s.desc s.hw with valid := false } : Desc) = ⟨false, some s.completed.length⟩ := by
    rw [Desc.mk.injEq, hp.hw]
    exact ⟨rfl, hnum⟩
  refine ⟨⟨hp.head, hp.lastTail, ?_, hp.freed_le, ?_, hp.passes_le_head, ?_, ?_, hp.room, hp.prep, ?_⟩, ?_, ?_,
    h.tx, h.subs, h.cookie, h.written, h.stages, h.clobbered⟩
  · rw [hlen, ← ringInc_slot, ← hp.hw]
  · rw [hlen]
    exact hpasses.trans (Nat.le_succ _)
  · rw [hlen]
    exact hlt
  · rw [hlen]
    exact hp.cleanDone_le.trans (Nat.le_succ _)
  · rw [hlen]
    exact hp.cleanup.mono (Nat.le_succ _) le_rfl
  · rw [hlen]
    exact hdoneList
  · show Window ringSize (update s.desc s.hw { s.desc s.hw with valid := false })
      (DescAt s.passes (s.completed ++ (s.desc s.hw).num.toList).length s.validNum s.written.length) s.freed
    rw [hlen, hnew, hp.hw]
    refine h.desc.update (by omega) (by omega) (descAt_used hin ?_) fun q d hq hd ↦ ?_
    · exact iff_of_false Bool.false_ne_true (by omega)
    · exact hd.congr Iff.rfl fun _ _ ↦ by omega

/-! ## The cleanup -/

section Cleanup

theorem Inv.set_cleanup (h : Inv s) {c : Cleanup}
    (hok : c.Ok s.passes s.freed s.completed.length s.cleanDone s.cleanHead s.headNum) :
    Inv { s with cleanup := c } := by
  have hp := h.places
  exact ⟨⟨hp.head, hp.lastTail, hp.hw, hp.freed_le, hp.passes_le_done, hp.passes_le_head, hp.done_le,
    hp.cleanDone_le, hp.room, hp.prep, hok⟩, h.completed, h.desc, h.tx, h.subs, h.cookie, h.written, h.stages,
    h.clobbered⟩

/-- The descriptor where a cleanup stands is valid exactly as long as it is not done. -/
theorem Inv.valid_iff (h : Inv s) (hlt : s.passes < s.cleanHead) (hle : s.cleanHead ≤ s.headNum) :
    (s.desc (slot ringSize s.passes)).valid = true ↔ s.completed.length ≤ s.passes := by
  have hp := h.places
  have hroom := hp.written_lt
  have hhead := hp.headNum_le
  have hvalid : s.headNum ≤ s.validNum := Nat.sub_le_sub_left s.prep.unset_le_ahead _
  have hat := h.desc s.passes hp.freed_le (by omega)
  rw [hat.valid_iff (by omega)]
  exact ⟨And.left, fun hdone ↦ ⟨hdone, by omega⟩⟩

theorem cleanup_idle_inv (h : Inv s) (hc : s.cleanup = .idle) : Inv (cleanup s) := by
  have hp := h.places
  have hok := hp.cleanup
  rw [hc] at hok
  simp only [cleanup, hc]
  refine ⟨⟨hp.head, hp.lastTail, hp.hw, hp.freed_le, hp.passes_le_done, hp.passes_le_head, hp.done_le, le_rfl,
    hp.room, hp.prep, ?_⟩, h.completed, h.desc, h.tx, h.subs, h.cookie, h.written, h.stages, h.clobbered⟩
  exact ⟨by rw [← hok.2, hp.lastTail], hp.head, hp.passes_le_head, le_rfl⟩

theorem cleanup_loop_inv (h : Inv s) {i k : ℕ} (hc : s.cleanup = .loop i k) : Inv (cleanup s) := by
  have hp := h.places
  have hok := hp.cleanup
  rw [hc] at hok
  obtain ⟨rfl, rfl, hle, hhead⟩ := hok
  simp only [cleanup, hc]
  apply h.set_cleanup
  split_ifs with heq hvalid
  · -- The cleanup has come to its end.
    have hlen := hp.headNum_le
    have hroom := hp.written_lt
    have hfreed := hp.freed_le
    exact ⟨rfl, .inr (le_of_eq (eq_of_slot_eq hle (by omega) heq).symm)⟩
  all_goals
    have hlt : s.passes < s.cleanHead := lt_of_le_of_ne hle fun he ↦ heq (by rw [he])
  · exact ⟨rfl, rfl, hlt, hhead⟩
  · rw [h.valid_iff hlt hhead] at hvalid
    exact ⟨rfl, rfl, hlt, hhead, Nat.lt_of_not_le hvalid⟩

theorem cleanup_again_inv (h : Inv s) {i k : ℕ} (hc : s.cleanup = .again i k) : Inv (cleanup s) := by
  have hp := h.places
  have hok := hp.cleanup
  rw [hc] at hok
  obtain ⟨rfl, rfl, hlt, hhead⟩ := hok
  simp only [cleanup, hc]
  apply h.set_cleanup
  split_ifs with hvalid
  · rw [h.valid_iff hlt hhead] at hvalid
    exact ⟨rfl, .inl (hp.cleanDone_le.trans hvalid)⟩
  · rw [h.valid_iff hlt hhead] at hvalid
    exact ⟨rfl, rfl, hlt, hhead, Nat.lt_of_not_le hvalid⟩

theorem cleanup_store_inv (h : Inv s) {i : ℕ} (hc : s.cleanup = .store i) : Inv (cleanup s) := by
  have hp := h.places
  have hok := hp.cleanup
  rw [hc] at hok
  obtain ⟨rfl, hend⟩ := hok
  simp only [cleanup, hc]
  have hfreed := hp.freed_le
  have hroom := hp.room
  have hlen := hp.written_lt
  have hhead := hp.headNum_le
  have hpasses := hp.passes_le_head
  refine ⟨⟨hp.head, rfl, hp.hw, le_rfl, hp.passes_le_done, hp.passes_le_head, hp.done_le, hp.cleanDone_le,
    lt_of_lt_of_le hroom (Nat.add_le_add_right hfreed _), hp.prep, hend, rfl⟩, h.completed, ?_, ?_, h.subs,
    h.cookie, h.written, h.stages, h.clobbered⟩
  · show Window ringSize s.desc _ s.passes
    refine h.desc.shift hfreed (by omega) fun q d hq hqlt hd ↦ ?_
    rw [hd.eq_free (by omega)]
    exact descAt_free (by omega)
  · show Window ringSize s.tx _ s.passes
    refine h.tx.shift hfreed (by omega) fun q x hq hqlt hx ↦ ?_
    rcases hx with ⟨t, sub, ht, hsub, hlast, -⟩ | ⟨-, rfl⟩
    · have hpending := h.subs.pending t sub ht hsub
      omega
    · refine .inr ⟨fun t sub ht hsub hlast ↦ ?_, rfl⟩
      have hbound := h.subs.bound sub (List.mem_of_getElem? hsub)
      omega

theorem SubsOk.pass {subs : List Sub} {k passes bound t : ℕ} {sub : Sub} (h : SubsOk subs k passes bound)
    (ht : k ≤ t) (hsub : subs[t]? = some sub) (hlast : sub.last = passes) :
    t = k ∧ SubsOk subs (k + 1) (passes + 1) bound := by
  have htlt := (List.getElem?_eq_some_iff.mp hsub).1
  obtain rfl : t = k := by
    by_contra hne
    obtain ⟨next, hnext⟩ : ∃ next, subs[k]? = some next := ⟨_, List.getElem?_eq_getElem (by omega)⟩
    have hlt := h.increasing k t next sub (by omega) hnext hsub
    have hpending := h.pending k next le_rfl hnext
    omega
  refine ⟨rfl, ⟨htlt, h.increasing, fun i a hi ha ↦ ?_, fun i a hi ha ↦ ?_, h.bound, h.cookie⟩⟩
  · rcases Nat.lt_succ_iff_lt_or_eq.mp hi with hlt | rfl
    · exact (h.passed i a hlt ha).trans (Nat.lt_succ_self _)
    · obtain rfl := Option.some_inj.mp (ha.symm.trans hsub)
      omega
  · have hlt := h.increasing t i sub a hi hsub ha
    omega

theorem SubsOk.skip {subs : List Sub} {k passes bound : ℕ} (h : SubsOk subs k passes bound)
    (hnone : ∀ t sub, k ≤ t → subs[t]? = some sub → sub.last ≠ passes) :
    SubsOk subs k (passes + 1) bound := by
  refine ⟨h.le, h.increasing, fun i a hi ha ↦ (h.passed i a hi ha).trans (Nat.lt_succ_self _),
    fun i a hi ha ↦ ?_, h.bound, h.cookie⟩
  have hpending := h.pending i a hi ha
  have hne := hnone i a hi ha
  omega

theorem Stages.pass {subs : List Sub} {passed called : List ℕ} {c : ℕ} {sub : Sub}
    (h : Stages subs passed called c) (hsub : subs[passed.length]? = some sub) :
    Stages subs (passed ++ [passed.length])
      (called ++ (if sub.callback then some passed.length else none).toList) sub.cookie := by
  refine ⟨?_, ?_, ?_⟩
  · rw [List.length_append, List.length_singleton, List.range_succ, ← h.passed_eq]
  · rw [List.filter_append, ← h.called_eq]
    have hcallback : (subs.map Sub.callback).getD passed.length false = sub.callback := by
      rw [List.getD_eq_getElem?_getD, List.getElem?_map, hsub]
      rfl
    congr 1
    rw [List.filter_singleton, hcallback]
    cases sub.callback <;> rfl
  · rw [List.getLast?_concat, Option.bind_some, hsub]
    rfl

theorem Inv.desc_stage (h : Inv s) (hlt : s.passes < s.headNum) (hdone : s.passes < s.completed.length) :
    Window ringSize
      (update s.desc (slot ringSize s.passes) { s.desc (slot ringSize s.passes) with num := none })
      (DescAt (s.passes + 1) s.completed.length s.validNum s.written.length) s.freed := by
  have hp := h.places
  have hlen := hp.written_lt
  have hhead := hp.headNum_le
  have hat := h.desc s.passes hp.freed_le (by omega)
  have hvalid : (s.desc (slot ringSize s.passes)).valid = false := by
    rw [← Bool.not_eq_true, hat.valid_iff (by omega)]
    omega
  have hnew : ({ s.desc (slot ringSize s.passes) with num := none } : Desc) = ⟨false, none⟩ := by
    rw [Desc.mk.injEq]
    exact ⟨hvalid, rfl⟩
  rw [hnew]
  refine h.desc.update hp.freed_le (by omega) (descAt_free (by omega)) fun q d hq hd ↦ ?_
  exact hd.congr (by omega) fun _ _ ↦ Iff.rfl

theorem TxAt.pass {subs : List Sub} {k q : ℕ} {sub : Sub} {x : Tx} (h : TxAt subs k q x)
    (hsub : subs[k]? = some sub) (hne : q ≠ sub.last) : TxAt subs (k + 1) q x := by
  rcases h with ⟨t, a, ht, ha, hlast, hx⟩ | ⟨hnone, hx⟩
  · refine .inl ⟨t, a, Nat.lt_of_le_of_ne ht fun htk ↦ ?_, ha, hlast, hx⟩
    subst htk
    obtain rfl := Option.some_inj.mp (ha.symm.trans hsub)
    exact hne hlast.symm
  · exact .inr ⟨fun t a ht ha ↦ hnone t a (Nat.le_of_succ_le ht) ha, hx⟩

theorem cleanup_stage_inv (h : Inv s) {i k : ℕ} (hc : s.cleanup = .stage i k) : Inv (cleanup s) := by
  have hp := h.places
  have hok := hp.cleanup
  rw [hc] at hok
  obtain ⟨rfl, rfl, hlt, hhead, hdone⟩ := hok
  have hlen := hp.written_lt
  have hheadle := hp.headNum_le
  have hplaces : Places (cleanup s) := by
    simp only [cleanup, hc, stage]
    exact ⟨hp.head, hp.lastTail, hp.hw, hp.freed_le.trans (Nat.le_succ _), hdone, lt_of_lt_of_le hlt hhead,
      hp.done_le, hp.cleanDone_le, hp.room, hp.prep, ringInc_slot _, rfl, hlt, hhead⟩
  have hdesc := h.desc_stage (lt_of_lt_of_le hlt hhead) hdone
  rcases h.tx s.passes hp.freed_le (by omega) with ⟨t, sub, ht, hsub, hlast, hx⟩ | ⟨hnone, hx⟩
  · -- The transaction ends here, and it is the next one.
    obtain ⟨rfl, hsubs⟩ := h.subs.pass ht hsub hlast
    have hcookie : (s.tx (slot ringSize s.passes)).cookie ≠ 0 := by
      rw [hx]
      exact h.subs.cookie sub (List.mem_of_getElem? hsub)
    have hpassed : s.passed ++ (s.tx (slot ringSize s.passes)).trans.toList =
        s.passed ++ [s.passed.length] := by
      rw [hx]
      rfl
    refine ⟨hplaces, ?_, ?_, ?_, ?_, ?_, ?_, ?_, ?_⟩ <;>
      simp only [cleanup, hc, stage, if_pos hcookie, hpassed]
    · exact h.completed
    · exact hdesc
    · rw [List.length_append, List.length_singleton]
      refine h.tx.update hp.freed_le (by omega) (.inr ⟨fun t a ht ha hat ↦ ?_, rfl⟩) fun q y hq hy ↦ ?_
      · have hpending := hsubs.pending t a ht ha
        omega
      · exact hy.pass hsub (hlast ▸ hq)
    · rw [List.length_append, List.length_singleton]
      exact hsubs
    · exact h.cookie
    · exact h.written
    · have hstages := h.stages.pass hsub
      rwa [hx]
    · exact h.clobbered
  · have hcookie : ¬(s.tx (slot ringSize s.passes)).cookie ≠ 0 := by
      rw [hx]
      decide
    refine ⟨hplaces, ?_, ?_, ?_, ?_, ?_, ?_, ?_, ?_⟩ <;>
      simp only [cleanup, hc, stage, if_neg hcookie]
    · exact h.completed
    · exact hdesc
    · exact h.tx
    · exact h.subs.skip hnone
    · exact h.cookie
    · exact h.written
    · exact h.stages
    · exact h.clobbered

theorem cleanup_inv (h : Inv s) : Inv (cleanup s) := by
  cases hc : s.cleanup with
  | idle => exact cleanup_idle_inv h hc
  | loop i k => exact cleanup_loop_inv h hc
  | again i k => exact cleanup_again_inv h hc
  | stage i k => exact cleanup_stage_inv h hc
  | store i => exact cleanup_store_inv h hc

end Cleanup

/-! ## Runs -/

/-- The number of descriptors of a transaction, as it is computed, is positive. -/
def Countable : Label → Prop
  | .prep len => 0 < (numDesc len).toInt
  | _ => True

instance Countable.decidable : ∀ l, Decidable (Countable l)
  | .prep len => inferInstanceAs (Decidable (0 < (numDesc len).toInt))
  | .prepStep | .submit _ | .submitStep | .complete | .cleanup => .isTrue trivial

theorem step_inv {l : Label} (h : Inv s) (hl : Countable l) (hs' : step s l = some s') : Inv s' := by
  cases l with
  | prep len => exact prep_inv h hl hs'
  | prepStep => exact prepStep_inv h hs'
  | submit callback => exact submit_inv h hs'
  | submitStep => exact submitStep_inv h hs'
  | complete => exact complete_inv h hs'
  | cleanup =>
    obtain rfl := Option.some_inj.mp hs'
    exact cleanup_inv h

theorem exec_inv {ls : List Label} (hls : ∀ l ∈ ls, Countable l) (hs : exec step init ls = some s) : Inv s :=
  exec_invariant (P := fun _ l _ ↦ Countable l) (fun h hl hs' ↦ step_inv h hl hs')
    (along_of_mem fun l hl _ _ ↦ hls l hl) init_inv hs

end Vcass.PlxDma
