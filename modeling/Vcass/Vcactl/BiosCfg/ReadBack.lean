import Mathlib.Data.List.Forall2
import Mathlib.Data.List.TakeWhile
import Vcass.Vcactl.BiosCfg

/-!
# What success of a change means

After the parameters were written they are read back. The attempt counts as failed if a read-back *fails* and the
variable it should have filled holds the requested value. So an attempt whose writes were refused succeeds, and so
does one after which nothing can be read.

The last attempt of a run is found from its end: first come the read-backs, before them perhaps a restart, and
before that the writes.
-/

namespace Vcass.Vcactl.BiosCfg

open Conc

/-- The read-backs that end a run. -/
def readBacks (tr : Run) : Run := (tr.reverse.takeWhile fun e ↦ e.1.isGet).reverse

/-- The writes of the last attempt. -/
def lastWrites (tr : Run) : Run :=
  ((tr.reverse.dropWhile fun e ↦ !e.1.isSet).takeWhile fun e ↦ e.1.isSet).reverse

/-- The parameter that was written is read with the value. -/
def Confirms (w r : Event Op Op.Answer) : Prop :=
  ∃ param value ok, w = ⟨.set param value, ok⟩ ∧ r = ⟨.get param, (true, value)⟩

/-- The parameter that was written cannot be read, and the variable holds the value. -/
def Leaves (w r : Event Op Op.Answer) : Prop :=
  ∃ param value ok, w = ⟨.set param value, ok⟩ ∧ r = ⟨.get param, (false, value)⟩

/-- What was written took effect: each read-back of the last attempt gives the value. -/
def TookEffect (tr : Run) : Prop := List.Forall₂ Confirms (lastWrites tr) (readBacks tr)

/-- A read-back of the last attempt failed, or gave another value. -/
def Missed (tr : Run) : Prop := ∃ x ∈ (lastWrites tr).zip (readBacks tr), ¬Confirms x.1 x.2

/-- A read-back of the last attempt failed and left the value. -/
def LeftOver (tr : Run) : Prop := ∃ x ∈ (lastWrites tr).zip (readBacks tr), Leaves x.1 x.2

section ReadBack

variable {gen1 onlyTdp : Bool} {desc : List Desc} {tr w r mid pre : Run} {b ret : Bool} {cfgs : List Cfg}
  {values : List String} {attempts : ℕ}

/-- The polarity of the check. -/
theorem readBack_eq_true_iff (hw : (writeDescs desc).Performs w ()) (hr : (readBack desc ret).Performs r b) :
    b = true ↔ ret = true ∧ ¬ ∃ x ∈ w.zip r, Leaves x.1 x.2 := by
  induction desc generalizing w r ret with
  | nil =>
    obtain ⟨rfl, -⟩ := hw
    obtain ⟨rfl, rfl⟩ := hr
    simp
  | cons dsc desc ih =>
    obtain ⟨ok, w', rfl, hw'⟩ := performs_ask.mp hw
    obtain ⟨⟨ok', newValue⟩, r', rfl, hr'⟩ := performs_ask.mp hr
    have hleaves : Leaves ⟨.set dsc.param dsc.value, ok⟩ ⟨.get dsc.param, (ok', newValue)⟩ ↔
        ok' = false ∧ newValue = dsc.value := by
      constructor
      · rintro ⟨param, value, ok₀, hset, hget⟩
        cases hset
        cases hget
        exact ⟨rfl, rfl⟩
      · rintro ⟨rfl, rfl⟩
        exact ⟨_, _, ok, rfl, rfl⟩
    rw [List.zip_cons_cons, List.exists_mem_cons_iff, hleaves, not_or, ih hw' hr']
    by_cases hbad : ok' = false ∧ newValue = dsc.value
    · obtain ⟨rfl, rfl⟩ := hbad
      simp
    · have hkeep : (!ok' && decide (newValue = dsc.value)) = false := by
        by_contra hne
        rw [Bool.not_eq_false, Bool.and_eq_true, Bool.not_eq_true', decide_eq_true_eq] at hne
        exact hbad hne
      rw [hkeep, if_neg Bool.false_ne_true, and_iff_right hbad]

/-- A run that does not end with a write. -/
def EndsRead (tr : Run) : Prop := tr = [] ∨ ∃ tr' e, tr = tr' ++ [e] ∧ e.1.isSet = false

theorem applyDescs_last (hdesc : desc ≠ []) (h : (applyDescs gen1 onlyTdp desc (attempts + 1)).Performs tr b) :
    ∃ pre w mid r, tr = pre ++ (w ++ (mid ++ r)) ∧ EndsRead pre ∧ (writeDescs desc).Performs w () ∧
      (∀ e ∈ mid, e.1.isSet = false ∧ e.1.isGet = false) ∧
      ((r = [] ∧ b = false) ∨ (readBack desc true).Performs r b) := by
  induction attempts generalizing tr with
  | zero =>
    obtain ⟨⟨⟩, w, tr', rfl, hw, h'⟩ := Prog.performs_bind.mp h
    obtain ⟨ready, mid, tr'', rfl, hmid, h''⟩ := Prog.performs_bind.mp h'
    refine ⟨[], w, mid, tr'', rfl, .inl rfl, hw, mid_of_makeReady hmid, ?_⟩
    cases ready with
    | false =>
      obtain ⟨rfl, rfl⟩ := h''
      exact .inl ⟨rfl, rfl⟩
    | true =>
      obtain ⟨ret, r, tr₃, rfl, hr, hret⟩ := Prog.performs_bind.mp h''
      right
      cases ret with
      | true =>
        obtain ⟨rfl, rfl⟩ := hret
        rwa [List.append_nil]
      | false =>
        obtain ⟨rfl, rfl⟩ := hret
        rwa [List.append_nil]
  | succ attempts ih =>
    obtain ⟨⟨⟩, w, tr', rfl, hw, h'⟩ := Prog.performs_bind.mp h
    obtain ⟨ready, mid, tr'', rfl, hmid, h''⟩ := Prog.performs_bind.mp h'
    cases ready with
    | false =>
      obtain ⟨rfl, rfl⟩ := h''
      exact ⟨[], w, mid, [], rfl, .inl rfl, hw, mid_of_makeReady hmid, .inl ⟨rfl, rfl⟩⟩
    | true =>
      obtain ⟨ret, r, tr₃, rfl, hr, hret⟩ := Prog.performs_bind.mp h''
      cases ret with
      | true =>
        obtain ⟨rfl, rfl⟩ := hret
        rw [List.append_nil]
        exact ⟨[], w, mid, r, rfl, .inl rfl, hw, mid_of_makeReady hmid, .inr hr⟩
      | false =>
        -- this attempt has failed, and ends with its read-backs
        obtain ⟨pre, w', mid', r', rfl, hpre, hrest⟩ := ih hret
        refine ⟨w ++ (mid ++ (r ++ pre)), w', mid', r', by simp only [List.append_assoc], ?_, hrest⟩
        right
        rcases hpre with rfl | ⟨pre', e, rfl, he⟩
        · have hne : r ≠ [] := by
            rw [← List.length_pos_iff, length_of_readBack hr]
            exact List.length_pos_iff.mpr hdesc
          refine ⟨w ++ (mid ++ r.dropLast), r.getLast hne, ?_, ?_⟩
          · simp only [List.append_assoc, List.append_nil, List.dropLast_append_getLast]
          · exact Op.isSet_of_isGet (isGet_of_readBack hr _ (List.getLast_mem hne))
        · exact ⟨w ++ (mid ++ (r ++ pre')), e, by simp only [List.append_assoc], he⟩

theorem takeWhile_append_of_neg {α : Type} {p : α → Bool} {l l' : List α} (hne : l ≠ []) (h : ∀ x ∈ l, p x = false) :
    (l ++ l').takeWhile p = [] := by
  cases l with
  | nil => exact absurd rfl hne
  | cons x l =>
    rw [List.cons_append, List.takeWhile_cons_of_neg]
    rw [h x List.mem_cons_self]
    exact Bool.false_ne_true

theorem readBacks_eq (hw : ∀ e ∈ w, e.1.isSet = true) (hne : w ≠ [])
    (hmid : ∀ e ∈ mid, e.1.isSet = false ∧ e.1.isGet = false) (hr : ∀ e ∈ r, e.1.isGet = true) :
    readBacks (pre ++ (w ++ (mid ++ r))) = r := by
  have hbefore : ((mid.reverse ++ w.reverse) ++ pre.reverse).takeWhile (fun e ↦ e.1.isGet) = [] := by
    apply takeWhile_append_of_neg
    · exact List.append_ne_nil_of_right_ne_nil _ fun h ↦ hne (List.reverse_eq_nil_iff.mp h)
    · intro e he
      rcases List.mem_append.mp he with he | he
      · exact (hmid e (List.mem_reverse.mp he)).2
      · by_contra hget
        rw [Bool.not_eq_false] at hget
        have hset := hw e (List.mem_reverse.mp he)
        rw [Op.isSet_of_isGet hget] at hset
        cases hset
  rw [readBacks]
  simp only [List.reverse_append, List.append_assoc] at hbefore ⊢
  rw [List.takeWhile_append_of_pos fun e he ↦ hr e (List.mem_reverse.mp he), hbefore, List.append_nil,
    List.reverse_reverse]

theorem lastWrites_eq (hpre : EndsRead pre) (hw : ∀ e ∈ w, e.1.isSet = true) (hne : w ≠ [])
    (hmid : ∀ e ∈ mid, e.1.isSet = false ∧ e.1.isGet = false) (hr : ∀ e ∈ r, e.1.isGet = true) :
    lastWrites (pre ++ (w ++ (mid ++ r))) = w := by
  have hafter : ∀ e ∈ r.reverse ++ mid.reverse, (!e.1.isSet) = true := by
    intro e he
    rw [Bool.not_eq_true']
    rcases List.mem_append.mp he with he | he
    · exact Op.isSet_of_isGet (hr e (List.mem_reverse.mp he))
    · exact (hmid e (List.mem_reverse.mp he)).1
  have hdrop : (w.reverse ++ pre.reverse).dropWhile (fun e ↦ !e.1.isSet) = w.reverse ++ pre.reverse := by
    cases hrev : w.reverse with
    | nil => exact absurd (List.reverse_eq_nil_iff.mp hrev) hne
    | cons e w' =>
      have he := hw e (List.mem_reverse.mp (by rw [hrev]; exact List.mem_cons_self))
      rw [List.cons_append, List.dropWhile_cons_of_neg]
      rw [he]
      exact Bool.false_ne_true
  have hbefore : pre.reverse.takeWhile (fun e ↦ e.1.isSet) = [] := by
    rcases hpre with rfl | ⟨pre', e, rfl, he⟩
    · rfl
    · rw [List.reverse_append]
      apply takeWhile_append_of_neg (List.cons_ne_nil _ _)
      intro e' he'
      rwa [List.mem_singleton.mp he']
  have hrev : (pre ++ (w ++ (mid ++ r))).reverse = (r.reverse ++ mid.reverse) ++ (w.reverse ++ pre.reverse) := by
    simp only [List.reverse_append, List.append_assoc]
  rw [lastWrites, hrev, List.dropWhile_append_of_pos hafter, hdrop,
    List.takeWhile_append_of_pos fun e he ↦ hw e (List.mem_reverse.mp he), hbefore, List.append_nil,
    List.reverse_reverse]

theorem endsRead_append {quiet : Run} (hquiet : ∀ e ∈ quiet, e.1.isSet = false) (hpre : EndsRead pre) :
    EndsRead (quiet ++ pre) := by
  rcases hpre with rfl | ⟨tr', e, rfl, he⟩
  · rcases List.eq_nil_or_concat quiet with rfl | ⟨quiet', e, rfl⟩
    · exact .inl rfl
    · right
      refine ⟨quiet', e, by simp only [List.concat_eq_append, List.append_nil], hquiet e ?_⟩
      rw [List.concat_eq_append]
      exact List.mem_append_right _ List.mem_cons_self
  · right
    exact ⟨quiet ++ tr', e, by rw [List.append_assoc], he⟩

theorem performs_of_isSet (h : (setBiosCfg gen1 cfgs values).Performs tr b) (hset : ∃ e ∈ tr, e.1.isSet = true) :
    ∃ quiet tr' onlyTdp desc attempts, tr = quiet ++ tr' ∧ (∀ e ∈ quiet, e.1.isSet = false) ∧ desc ≠ [] ∧
      (applyDescs gen1 onlyTdp desc (attempts + 1)).Performs tr' b := by
  have hloud : ¬∀ e ∈ tr, e.1.isSet = false := by
    obtain ⟨e, he, hwrite⟩ := hset
    intro hquiet
    rw [hquiet e he] at hwrite
    cases hwrite
  obtain ⟨tr₁, tr₂, rfl, hquiet, hchange⟩ := (performs_setBiosCfg h).resolve_left hloud
  rcases performs_changeBiosCfg hchange with hreads | ⟨desc, ordered, tr₃, tr₄, rfl, hne, hreads, happly⟩
  · exact absurd (List.forall_mem_append.mpr ⟨hquiet, fun e he ↦ Op.isSet_of_isGet (hreads e he)⟩) hloud
  · obtain ⟨attempts, hattempts⟩ := exists_maxAttempts desc
    rw [hattempts] at happly
    have hboth : ∀ e ∈ tr₁ ++ tr₃, e.1.isSet = false :=
      List.forall_mem_append.mpr ⟨hquiet, fun e he ↦ Op.isSet_of_isGet (hreads e he)⟩
    exact ⟨tr₁ ++ tr₃, tr₄, _, ordered, attempts, by rw [List.append_assoc], hboth, hne, happly⟩

/-- **What success means.** A run that changes something reports success only for changes that took effect, if and
only if a read-back that fails leaves its value whenever a read-back of the last attempt misses. -/
theorem success_iff (h : (setBiosCfg gen1 cfgs values).Performs tr b) (hset : ∃ e ∈ tr, e.1.isSet = true) :
    (b = true → TookEffect tr) ↔ (Missed tr → LeftOver tr) := by
  obtain ⟨quiet, tr', onlyTdp, desc, attempts, rfl, hquiet, hdesc, happly⟩ := performs_of_isSet h hset
  obtain ⟨pre, w, mid, r, rfl, hpre, hw, hmid, hlast⟩ := applyDescs_last hdesc happly
  -- from its end, the run has the read-backs `r`, the restart `mid` and the writes `w` of the last attempt
  have hends := endsRead_append hquiet hpre
  have hsets := isSet_of_writeDescs hw
  have hne : w ≠ [] := by
    rw [← List.length_pos_iff, length_of_writeDescs hw]
    exact List.length_pos_iff.mpr hdesc
  have hgets : ∀ e ∈ r, e.1.isGet = true := by
    rcases hlast with ⟨rfl, -⟩ | hr
    · exact fun e he ↦ absurd he List.not_mem_nil
    · exact isGet_of_readBack hr
  rw [TookEffect, Missed, LeftOver, ← List.append_assoc, readBacks_eq hsets hne hmid hgets,
    lastWrites_eq hends hsets hne hmid hgets]
  rcases hlast with ⟨rfl, rfl⟩ | hr
  · -- the node did not come back, and nothing was read
    rw [List.zip_nil_right]
    apply iff_of_true
    · exact fun hb ↦ absurd hb Bool.false_ne_true
    · rintro ⟨x, hx, -⟩
      exact absurd hx List.not_mem_nil
  · have hread := readBack_eq_true_iff hw hr
    have hlen : w.length = r.length := by rw [length_of_writeDescs hw, length_of_readBack hr]
    constructor
    · rintro hb ⟨x, hx, hmiss⟩
      by_contra hleft
      exact hmiss ((List.forall₂_iff_zip.mp (hb (hread.mpr ⟨rfl, hleft⟩))).2 hx)
    · intro hmissed hb
      refine List.forall₂_iff_zip.mpr ⟨hlen, fun {x y} hx ↦ ?_⟩
      by_contra hmiss
      exact (hread.mp hb).2 (hmissed ⟨(x, y), hx, hmiss⟩)

end ReadBack

/-- Hyper-threading is enabled and the GPU disabled, and both can be read back after the restart. -/
theorem ht_and_gpu_took_effect :
    let tr : Run := [⟨.getCpuState, CpuState.biosReady⟩, ⟨.get .ht, (true, 0)⟩, ⟨.get .gpu, (true, 1)⟩,
      ⟨.set .ht 1, true⟩, ⟨.set .gpu 0, true⟩, ⟨.pressPowerButton true, true⟩, ⟨.pressPowerButton false, true⟩,
      ⟨.waitBios, true⟩, ⟨.setLbpParam, true⟩, ⟨.handshake, true⟩, ⟨.get .ht, (true, 1)⟩, ⟨.get .gpu, (true, 0)⟩]
    (true = true → TookEffect tr) ↔ (Missed tr → LeftOver tr) := by
  refine @success_iff false _ true [.ht, .gpu] ["enable", "disable"] ?_ ⟨⟨.set .ht 1, true⟩, ?_, rfl⟩
  · exact ⟨_, _, rfl, _, _, rfl, _, _, rfl, _, _, rfl, _, _, rfl, _, _, rfl, _, _, rfl, _, _, rfl, _, _, rfl, _, _, rfl,
      _, _, rfl, _, _, rfl, rfl, rfl⟩
  · simp

/-- A TDP that the BIOS refuses, and that reads as before, is reported as set. -/
theorem refused_write_reported :
    ∃ tr : Run, (setBiosCfg false [.tdp] ["5"]).Performs tr true ∧ (∃ e ∈ tr, e.1.isSet = true) ∧ ¬TookEffect tr := by
  refine ⟨[⟨.getCpuState, CpuState.biosReady⟩, ⟨.get .tdp, (true, 0)⟩, ⟨.set .tdp 5, false⟩, ⟨.get .tdp, (true, 0)⟩],
    ⟨_, _, rfl, _, _, rfl, _, _, rfl, _, _, rfl, rfl, rfl⟩, ⟨⟨.set .tdp 5, false⟩, by simp, rfl⟩, ?_⟩
  intro htook
  obtain ⟨param, value, ok, hw, hr⟩ := (List.forall₂_cons.mp htook).1
  cases hw
  cases hr

end Vcass.Vcactl.BiosCfg
