import Vcass.Vcactl.BiosCfg.Store

/-!
# SGX and the aperture of the GPU

SGX needs an aperture of at most 512 MB. The check before the writes compares the last value of SGX with the last
aperture, and moves one of them so that an aperture is made smaller before SGX is enabled, and made larger after it
is disabled. The values before the last ones are written too, and they are not compared with anything.

## When it is enough

Of the writes only those to SGX and to the aperture matter here, a list of *changes*. A list that has both kinds
ends with a change of one kind, and before it come changes of this kind only, back to the last change of the other
kind. So the check leaves a first part of the list as it is, and puts the two last changes around the part between
them. Whether every write is safe is then said about these parts.
-/

namespace Vcass.Vcactl.BiosCfg

open Conc

/-! ## Settings and changes -/

/-- SGX, and the code of the aperture. -/
structure Setting where
  sgx : ℕ
  aperture : ℕ
  deriving DecidableEq, Repr

inductive Change
  | sgx (value : ℕ)
  | aperture (code : ℕ)
  deriving DecidableEq, Repr

namespace Setting

/-- SGX is disabled, or the aperture has at most 512 MB. -/
def Safe (p : Setting) : Prop := p.sgx = 0 ∨ p.aperture ≤ 3

instance (p : Setting) : Decidable p.Safe := inferInstanceAs (Decidable (_ ∨ _))

def make (p : Setting) : Change → Setting
  | .sgx value => { p with sgx := value }
  | .aperture code => { p with aperture := code }

def makeAll (p : Setting) (cs : List Change) : Setting := cs.foldl make p

/-- Every change of the list, made in this order, is safe. -/
def Keeps (p : Setting) : List Change → Prop
  | [] => True
  | c :: cs => (p.make c).Safe ∧ (p.make c).Keeps cs

variable {p q : Setting} {cs cs' : List Change} {values codes : List ℕ}

theorem keeps_append : p.Keeps (cs ++ cs') ↔ p.Keeps cs ∧ (p.makeAll cs).Keeps cs' := by
  induction cs generalizing p with
  | nil => exact (and_iff_right trivial).symm
  | cons c cs ih =>
    rw [List.cons_append, Keeps, Keeps, ih, and_assoc]
    rfl

theorem makeAll_sgx (p : Setting) (values : List ℕ) :
    p.makeAll (values.map .sgx) = { p with sgx := values.getLast?.getD p.sgx } := by
  induction values generalizing p with
  | nil => rfl
  | cons value values ih =>
    change (p.make (.sgx value)).makeAll (values.map .sgx) = _
    rw [ih, List.getLast?_cons]
    rfl

theorem makeAll_aperture (p : Setting) (codes : List ℕ) :
    p.makeAll (codes.map .aperture) = { p with aperture := codes.getLast?.getD p.aperture } := by
  induction codes generalizing p with
  | nil => rfl
  | cons code codes ih =>
    change (p.make (.aperture code)).makeAll (codes.map .aperture) = _
    rw [ih, List.getLast?_cons]
    rfl

theorem keeps_sgx : p.Keeps (values.map .sgx) ↔ (∀ value ∈ values, value = 0) ∨ p.aperture ≤ 3 := by
  induction values generalizing p with
  | nil => exact iff_of_true trivial (.inl fun value h ↦ absurd h List.not_mem_nil)
  | cons value values ih =>
    rw [List.map_cons, Keeps, ih, List.forall_mem_cons]
    exact and_or_right.symm

theorem keeps_aperture : p.Keeps (codes.map .aperture) ↔ p.sgx = 0 ∨ ∀ code ∈ codes, code ≤ 3 := by
  induction codes generalizing p with
  | nil => exact iff_of_true trivial (.inr fun code h ↦ absurd h List.not_mem_nil)
  | cons code codes ih =>
    rw [List.map_cons, Keeps, ih, List.forall_mem_cons]
    exact or_and_left.symm

/-- Once SGX is disabled, any aperture is safe. -/
theorem keeps_disabled (p : Setting) (codes : List ℕ) : p.Keeps (.sgx 0 :: codes.map .aperture) :=
  ⟨.inl rfl, keeps_aperture.mpr (.inl rfl)⟩

/-- Once the aperture is small, SGX is safe. -/
theorem keeps_small (p : Setting) {code : ℕ} (hcode : code ≤ 3) (values : List ℕ) :
    p.Keeps (.aperture code :: values.map .sgx) :=
  ⟨.inr hcode, keeps_sgx.mpr (.inr hcode)⟩

/-- A small aperture that is moved before others, after which SGX is enabled. -/
theorem keeps_aperture_sgx {code value : ℕ} (hcode : code ≤ 3) (hvalue : value ≠ 0) :
    p.Keeps ((code :: codes).map Change.aperture ++ [Change.sgx value]) ↔
      (p.sgx = 0 ∨ ∀ c ∈ codes, c ≤ 3) ∧ ∀ c ∈ codes.getLast?, c ≤ 3 := by
  rw [keeps_append, keeps_aperture, List.forall_mem_cons, and_iff_right hcode, makeAll_aperture, List.getLast?_cons]
  apply and_congr_right'
  have hlast : (∀ c ∈ codes.getLast?, c ≤ 3) ↔ codes.getLast?.getD code ≤ 3 := by
    cases codes.getLast? with
    | none => exact iff_of_true (fun c hc ↦ absurd hc (Option.not_mem_none c)) hcode
    | some c => simp
  rw [hlast]
  constructor
  · rintro ⟨hsafe, -⟩
    exact hsafe.resolve_left hvalue
  · intro hsmall
    exact ⟨.inr hsmall, trivial⟩

/-- SGX disabled before other changes of it, after which the aperture is set. -/
theorem keeps_sgx_aperture {code : ℕ} :
    p.Keeps ((0 :: values).map Change.sgx ++ [Change.aperture code]) ↔
      ((∀ v ∈ values, v = 0) ∨ p.aperture ≤ 3) ∧ ∀ v ∈ values.getLast?, v = 0 ∨ code ≤ 3 := by
  rw [keeps_append, keeps_sgx, List.forall_mem_cons, and_iff_right rfl, makeAll_sgx, List.getLast?_cons]
  apply and_congr_right'
  have hlast : (∀ v ∈ values.getLast?, v = 0 ∨ code ≤ 3) ↔ values.getLast?.getD 0 = 0 ∨ code ≤ 3 := by
    cases values.getLast? with
    | none => exact iff_of_true (fun c hc ↦ absurd hc (Option.not_mem_none c)) (.inl rfl)
    | some c => simp
  rw [hlast]
  exact and_iff_left trivial

end Setting

/-- The changes from a setting can be made, after the check, without a write that is not safe. -/
inductive Suits (p : Setting) : List Change → Prop
  /-- The aperture stays. -/
  | sgx (values : List ℕ) : Suits p (values.map .sgx)
  /-- SGX stays. If it is enabled, the check refuses a last aperture that is too large. -/
  | aperture (codes : List ℕ) (h : p.sgx = 0 ∨ (∃ code ∈ codes.getLast?, 3 < code) ∨ ∀ code ∈ codes, code ≤ 3) :
      Suits p (codes.map .aperture)
  /-- After the last change of SGX come apertures. If it enables SGX, the last of them is moved before the others. -/
  | sgxFirst (cs : List Change) (value : ℕ) (codes : List ℕ) (code : ℕ)
      (h : (value ≠ 0 ∧ 3 < code) ∨ (p.Keeps cs ∧ (value ≠ 0 →
        ((p.makeAll cs).sgx = 0 ∨ ∀ c ∈ codes, c ≤ 3) ∧ ∀ c ∈ codes.getLast?, c ≤ 3))) :
      Suits p (cs ++ Change.sgx value :: (codes.map Change.aperture ++ [Change.aperture code]))
  /-- After the last aperture come changes of SGX. If the last of them disables it, it is moved before the others. -/
  | apertureFirst (cs : List Change) (code : ℕ) (values : List ℕ) (value : ℕ)
      (h : (value ≠ 0 ∧ 3 < code) ∨ (p.Keeps cs ∧ (value = 0 →
        ((∀ v ∈ values, v = 0) ∨ (p.makeAll cs).aperture ≤ 3) ∧ ∀ v ∈ values.getLast?, v = 0 ∨ code ≤ 3))) :
      Suits p (cs ++ Change.aperture code :: (values.map Change.sgx ++ [Change.sgx value]))

theorem shapes (cs : List Change) :
    (∃ values : List ℕ, cs = values.map .sgx) ∨ (∃ codes : List ℕ, cs = codes.map .aperture ∧ codes ≠ []) ∨
      (∃ cs' value, ∃ codes : List ℕ, ∃ code,
        cs = cs' ++ Change.sgx value :: (codes.map Change.aperture ++ [Change.aperture code])) ∨
      ∃ cs' code, ∃ values : List ℕ, ∃ value,
        cs = cs' ++ Change.aperture code :: (values.map Change.sgx ++ [Change.sgx value]) := by
  induction cs with
  | nil => exact .inl ⟨[], rfl⟩
  | cons c cs ih =>
    rcases ih with ⟨values, rfl⟩ | ⟨codes, rfl, hne⟩ | ⟨cs', value, codes, code, rfl⟩ | ⟨cs', code, values, value, rfl⟩
    · cases c with
      | sgx value => exact .inl ⟨value :: values, rfl⟩
      | aperture code =>
        rcases List.eq_nil_or_concat values with rfl | ⟨values', value, rfl⟩
        · exact .inr (.inl ⟨[code], rfl, List.cons_ne_nil _ _⟩)
        · exact .inr (.inr (.inr ⟨[], code, values', value, by simp⟩))
    · cases c with
      | aperture code => exact .inr (.inl ⟨code :: codes, rfl, List.cons_ne_nil _ _⟩)
      | sgx value =>
        rcases List.eq_nil_or_concat codes with rfl | ⟨codes', code, rfl⟩
        · exact absurd rfl hne
        · exact .inr (.inr (.inl ⟨[], value, codes', code, by simp⟩))
    · exact .inr (.inr (.inl ⟨c :: cs', value, codes, code, rfl⟩))
    · exact .inr (.inr (.inr ⟨c :: cs', code, values, value, rfl⟩))

/-! ## The check, on changes -/

def Desc.change : Desc → Option Change
  | ⟨.sgx, value⟩ => some (.sgx value)
  | ⟨.gpuAperture, value⟩ => some (.aperture value)
  | _ => none

/-- The changes among the writes. -/
def changesAmong (desc : List Desc) : List Change := desc.filterMap Desc.change

def Store.setting (s : Store) : Setting := ⟨s .sgx, s .gpuAperture⟩

/-- What is left after the check. -/
def checked (s : Store) (desc : List Desc) : List Desc := ((compatCheck false desc).eval (answers s)).getD []

section Check

variable {s : Store} {desc before between after : List Desc} {d e : Desc} {i j value code : ℕ} {param : BiosParam}

theorem change_eq_sgx : d.change = some (.sgx value) ↔ d = ⟨.sgx, value⟩ := by
  obtain ⟨param, v⟩ := d
  cases param <;> simp [Desc.change]

theorem change_eq_aperture : d.change = some (.aperture code) ↔ d = ⟨.gpuAperture, code⟩ := by
  obtain ⟨param, v⟩ := d
  cases param <;> simp [Desc.change]

theorem lastDesc_append (hd : d.param = param) (hafter : ∀ x ∈ after, x.param ≠ param) :
    lastDesc param (before ++ d :: after) = some (before.length, d) := by
  induction before with
  | nil =>
    rw [List.nil_append, lastDesc, lastDesc_eq_none.mpr hafter]
    exact if_pos hd
  | cons x before ih =>
    rw [List.cons_append, lastDesc, ih]
    rfl

theorem set_set_append :
    ((before ++ d :: (between ++ e :: after)).set before.length e).set (before.length + (between.length + 1)) d =
      before ++ e :: (between ++ d :: after) := by
  rw [List.set_append_right _ _ le_rfl, Nat.sub_self, List.set_cons_zero,
    List.set_append_right _ _ (Nat.le_add_right _ _), Nat.add_sub_cancel_left, List.set_cons_succ,
    List.set_append_right _ _ le_rfl, Nat.sub_self, List.set_cons_zero]

theorem checked_both (hsgx : lastDesc .sgx desc = some (i, d)) (haperture : lastDesc .gpuAperture desc = some (j, e)) :
    checked s desc =
      if d.value ≠ 0 ∧ 3 < e.value then []
      else if (d.value ≠ 0 ∧ i < j) ∨ (d.value = 0 ∧ j < i) then (desc.set i e).set j d
      else desc := by
  have hlarge : isSgxSupportedForAperture e.value = false ↔ 3 < e.value := by
    rw [isSgxSupportedForAperture, decide_eq_false_iff_not, not_le]
  rw [checked, compatCheck, hsgx, haperture]
  simp only [hlarge]
  split_ifs
  · rfl
  · rfl
  · rfl

theorem checked_sgx (hsgx : lastDesc .sgx desc = some (i, d)) (haperture : lastDesc .gpuAperture desc = none) :
    checked s desc = if d.value ≠ 0 ∧ 3 < s .gpuAperture then [] else desc := by
  rw [checked, compatCheck, hsgx, haperture]
  change (if (decide (d.value ≠ 0) && !decide (s .gpuAperture ≤ 3)) = true then none else some desc).getD [] = _
  simp only [Bool.and_eq_true, decide_eq_true_eq, Bool.not_eq_true', decide_eq_false_iff_not, not_le]
  split_ifs
  · rfl
  · rfl

theorem checked_aperture (hsgx : lastDesc .sgx desc = none) (haperture : lastDesc .gpuAperture desc = some (j, e)) :
    checked s desc = if s .sgx ≠ 0 ∧ 3 < e.value then [] else desc := by
  rw [checked, compatCheck, hsgx, haperture]
  change (if (decide (s .sgx ≠ 0) && !decide (e.value ≤ 3)) = true then none else some desc).getD [] = _
  simp only [Bool.and_eq_true, decide_eq_true_eq, Bool.not_eq_true', decide_eq_false_iff_not, not_le]
  split_ifs
  · rfl
  · rfl

theorem checked_none (hsgx : lastDesc .sgx desc = none) (haperture : lastDesc .gpuAperture desc = none) :
    checked s desc = desc := by
  rw [checked, compatCheck, hsgx, haperture]
  rfl

theorem changesAmong_append (desc desc' : List Desc) :
    changesAmong (desc ++ desc') = changesAmong desc ++ changesAmong desc' := List.filterMap_append

theorem changesAmong_cons {c : Change} (hd : d.change = some c) (desc : List Desc) :
    changesAmong (d :: desc) = c :: changesAmong desc := List.filterMap_cons_some hd

theorem exists_of_changesAmong {cs cs' : List Change} {c : Change} (h : changesAmong desc = cs ++ c :: cs') :
    ∃ before d after, desc = before ++ d :: after ∧ changesAmong before = cs ∧ d.change = some c ∧
      changesAmong after = cs' := by
  obtain ⟨before, rest, rfl, hbefore, hrest⟩ := List.filterMap_eq_append_iff.mp h
  obtain ⟨others, d, after, rfl, hothers, hd, hafter⟩ := List.filterMap_eq_cons_iff.mp hrest
  refine ⟨before ++ others, d, after, by rw [List.append_assoc], ?_, hd, hafter⟩
  rw [changesAmong_append, changesAmong, hbefore, changesAmong, List.filterMap_eq_nil_iff.mpr hothers, List.append_nil]

theorem lastDesc_sgx_eq_none (h : ∀ value, .sgx value ∉ changesAmong desc) : lastDesc .sgx desc = none := by
  apply lastDesc_eq_none.mpr
  intro x hx hparam
  exact h x.value (List.mem_filterMap.mpr ⟨x, hx, change_eq_sgx.mpr (by rw [← hparam])⟩)

theorem lastDesc_aperture_eq_none (h : ∀ code, .aperture code ∉ changesAmong desc) :
    lastDesc .gpuAperture desc = none := by
  apply lastDesc_eq_none.mpr
  intro x hx hparam
  exact h x.value (List.mem_filterMap.mpr ⟨x, hx, change_eq_aperture.mpr (by rw [← hparam])⟩)

theorem lastDesc_sgx_append (hd : d.change = some (.sgx value)) (h : ∀ value, .sgx value ∉ changesAmong after) :
    lastDesc .sgx (before ++ d :: after) = some (before.length, d) := by
  apply lastDesc_append
  · rw [change_eq_sgx.mp hd]
  · exact lastDesc_eq_none.mp (lastDesc_sgx_eq_none h)

theorem lastDesc_aperture_append (he : e.change = some (.aperture code))
    (h : ∀ code, .aperture code ∉ changesAmong after) :
    lastDesc .gpuAperture (before ++ e :: after) = some (before.length, e) := by
  apply lastDesc_append
  · rw [change_eq_aperture.mp he]
  · exact lastDesc_eq_none.mp (lastDesc_aperture_eq_none h)

theorem append_cons_append (before between after : List Desc) (d e : Desc) :
    before ++ d :: (between ++ e :: after) = (before ++ d :: between) ++ e :: after := by
  rw [List.append_assoc, List.cons_append]

theorem sgx_not_mem_map (codes : List ℕ) (value : ℕ) : Change.sgx value ∉ codes.map .aperture := by
  intro h
  obtain ⟨code, -, hcode⟩ := List.mem_map.mp h
  cases hcode

theorem aperture_not_mem_map (values : List ℕ) (code : ℕ) : Change.aperture code ∉ values.map .sgx := by
  intro h
  obtain ⟨value, -, hvalue⟩ := List.mem_map.mp h
  cases hvalue

theorem keeps_sgxFirst {cs : List Change} {codes : List ℕ}
    (h : changesAmong desc = cs ++ Change.sgx value :: (codes.map Change.aperture ++ [Change.aperture code])) :
    s.setting.Keeps (changesAmong (checked s desc)) ↔ (value ≠ 0 ∧ 3 < code) ∨ (s.setting.Keeps cs ∧ (value ≠ 0 →
      ((s.setting.makeAll cs).sgx = 0 ∨ ∀ c ∈ codes, c ≤ 3) ∧ ∀ c ∈ codes.getLast?, c ≤ 3)) := by
  obtain ⟨before, d, rest, rfl, hbefore, hd, hrest⟩ := exists_of_changesAmong h
  obtain ⟨between, e, after, rfl, hbetween, he, hafter⟩ := exists_of_changesAmong hrest
  have hsgx : lastDesc .sgx (before ++ d :: (between ++ e :: after)) = some (before.length, d) := by
    apply lastDesc_sgx_append hd
    rw [hrest, ← List.map_singleton, ← List.map_append]
    exact sgx_not_mem_map _
  have haperture : lastDesc .gpuAperture (before ++ d :: (between ++ e :: after)) =
      some (before.length + (between.length + 1), e) := by
    rw [append_cons_append, lastDesc_aperture_append he, List.length_append, List.length_cons]
    rw [hafter]
    exact fun _ ↦ List.not_mem_nil
  obtain rfl := change_eq_sgx.mp hd
  obtain rfl := change_eq_aperture.mp he
  have hlt : before.length < before.length + (between.length + 1) := Nat.lt_add_of_pos_right (Nat.succ_pos _)
  rw [checked_both hsgx haperture, set_set_append]
  by_cases hrefused : value ≠ 0 ∧ 3 < code
  · rw [if_pos hrefused]
    exact iff_of_true trivial (.inl hrefused)
  · rw [if_neg hrefused, or_iff_right hrefused]
    by_cases hvalue : value = 0
    · -- SGX is disabled where it stands
      rw [if_neg fun hswap ↦ hswap.elim (fun hne ↦ hne.1 hvalue) fun hgt ↦ lt_asymm hlt hgt.2, h,
        Setting.keeps_append, ← List.map_singleton, ← List.map_append, hvalue]
      exact and_congr_right' (iff_of_true (Setting.keeps_disabled _ _) fun hne ↦ absurd rfl hne)
    · -- the last aperture goes before the others, and SGX after them
      rw [not_and, not_lt] at hrefused
      rw [if_pos (.inl ⟨hvalue, hlt⟩), changesAmong_append, changesAmong_cons he, changesAmong_append,
        changesAmong_cons hd, hbefore, hbetween, hafter, Setting.keeps_append, ← List.cons_append, ← List.map_cons,
        Setting.keeps_aperture_sgx (hrefused hvalue) hvalue, forall_prop_of_true hvalue]

theorem keeps_apertureFirst {cs : List Change} {values : List ℕ}
    (h : changesAmong desc = cs ++ Change.aperture code :: (values.map Change.sgx ++ [Change.sgx value])) :
    s.setting.Keeps (changesAmong (checked s desc)) ↔ (value ≠ 0 ∧ 3 < code) ∨ (s.setting.Keeps cs ∧ (value = 0 →
      ((∀ v ∈ values, v = 0) ∨ (s.setting.makeAll cs).aperture ≤ 3) ∧ ∀ v ∈ values.getLast?, v = 0 ∨ code ≤ 3)) := by
  obtain ⟨before, e, rest, rfl, hbefore, he, hrest⟩ := exists_of_changesAmong h
  obtain ⟨between, d, after, rfl, hbetween, hd, hafter⟩ := exists_of_changesAmong hrest
  have haperture : lastDesc .gpuAperture (before ++ e :: (between ++ d :: after)) = some (before.length, e) := by
    apply lastDesc_aperture_append he
    rw [hrest, ← List.map_singleton, ← List.map_append]
    exact aperture_not_mem_map _
  have hsgx : lastDesc .sgx (before ++ e :: (between ++ d :: after)) =
      some (before.length + (between.length + 1), d) := by
    rw [append_cons_append, lastDesc_sgx_append hd, List.length_append, List.length_cons]
    rw [hafter]
    exact fun _ ↦ List.not_mem_nil
  obtain rfl := change_eq_sgx.mp hd
  obtain rfl := change_eq_aperture.mp he
  have hlt : before.length < before.length + (between.length + 1) := Nat.lt_add_of_pos_right (Nat.succ_pos _)
  rw [checked_both hsgx haperture, List.set_comm _ _ hlt.ne', set_set_append]
  by_cases hrefused : value ≠ 0 ∧ 3 < code
  · rw [if_pos hrefused]
    exact iff_of_true trivial (.inl hrefused)
  · rw [if_neg hrefused, or_iff_right hrefused]
    by_cases hvalue : value = 0
    · -- SGX is disabled before its other changes, and the aperture is set after them
      rw [if_pos (.inr ⟨hvalue, hlt⟩), changesAmong_append, changesAmong_cons hd, changesAmong_append,
        changesAmong_cons he, hbefore, hbetween, hafter, Setting.keeps_append, ← List.cons_append, ← List.map_cons,
        hvalue, Setting.keeps_sgx_aperture, forall_prop_of_true rfl]
    · -- the aperture is made small where it stands
      rw [not_and, not_lt] at hrefused
      rw [if_neg fun hswap ↦ hswap.elim (fun hgt ↦ lt_asymm hlt hgt.2) fun heq ↦ hvalue heq.1, h,
         Setting.keeps_append, ← List.map_singleton, ← List.map_append]
      exact and_congr_right' (iff_of_true (Setting.keeps_small _ (hrefused hvalue) _) fun heq ↦ absurd heq hvalue)

theorem keeps_onlyAperture {codes : List ℕ} (h : changesAmong desc = codes.map .aperture) (hne : codes ≠ []) :
    s.setting.Keeps (changesAmong (checked s desc)) ↔
      s .sgx = 0 ∨ (∃ code ∈ codes.getLast?, 3 < code) ∨ ∀ code ∈ codes, code ≤ 3 := by
  obtain ⟨codes, code, rfl⟩ := (List.eq_nil_or_concat codes).resolve_left hne
  rw [List.concat_eq_append] at h ⊢
  rw [List.map_append, List.map_singleton] at h
  obtain ⟨before, e, after, rfl, -, he, hafter⟩ := exists_of_changesAmong h
  have haperture : lastDesc .gpuAperture (before ++ e :: after) = some (before.length, e) := by
    apply lastDesc_aperture_append he
    rw [hafter]
    exact fun _ ↦ List.not_mem_nil
  have hsgx : lastDesc .sgx (before ++ e :: after) = none := by
    apply lastDesc_sgx_eq_none
    rw [h, ← List.map_singleton, ← List.map_append]
    exact sgx_not_mem_map _
  obtain rfl := change_eq_aperture.mp he
  have hlast : (∃ c ∈ (codes ++ [code]).getLast?, 3 < c) ↔ 3 < code := by
    rw [List.getLast?_concat]
    simp
  rw [checked_aperture hsgx haperture, hlast]
  by_cases hrefused : s .sgx ≠ 0 ∧ 3 < code
  · rw [if_pos hrefused]
    exact iff_of_true trivial (.inr (.inl hrefused.2))
  · rw [if_neg hrefused, h, ← List.map_singleton, ← List.map_append, Setting.keeps_aperture]
    constructor
    · rintro (hoff | hall)
      · exact .inl hoff
      · exact .inr (.inr hall)
    · rintro (hoff | hlarge | hall)
      · exact .inl hoff
      · exact .inl (not_not.mp fun hon ↦ hrefused ⟨hon, hlarge⟩)
      · exact .inr hall

theorem keeps_onlySgx {values : List ℕ} (h : changesAmong desc = values.map .sgx) (hsafe : s.setting.Safe)
    (hoff : 0 ∈ values → s .sgx ≠ 0) : s.setting.Keeps (changesAmong (checked s desc)) := by
  have haperture : lastDesc .gpuAperture desc = none := by
    apply lastDesc_aperture_eq_none
    rw [h]
    exact aperture_not_mem_map _
  rcases List.eq_nil_or_concat values with rfl | ⟨values, value, rfl⟩
  · have hsgx : lastDesc .sgx desc = none := by
      apply lastDesc_sgx_eq_none
      rw [h]
      exact fun _ ↦ List.not_mem_nil
    rw [checked_none hsgx haperture, h]
    trivial
  · rw [List.concat_eq_append] at h hoff
    have hsplit := h
    rw [List.map_append, List.map_singleton] at hsplit
    obtain ⟨before, d, after, rfl, -, hd, hafter⟩ := exists_of_changesAmong hsplit
    have hsgx : lastDesc .sgx (before ++ d :: after) = some (before.length, d) := by
      apply lastDesc_sgx_append hd
      rw [hafter]
      exact fun _ ↦ List.not_mem_nil
    obtain rfl := change_eq_sgx.mp hd
    rw [checked_sgx hsgx haperture]
    by_cases hrefused : value ≠ 0 ∧ 3 < s .gpuAperture
    · rw [if_pos hrefused]
      trivial
    · rw [if_neg hrefused, h, Setting.keeps_sgx]
      right
      -- with a large aperture SGX is disabled, and a change would enable it
      by_contra hlarge
      rw [not_le] at hlarge
      have hvalue : value = 0 := not_not.mp fun hne ↦ hrefused ⟨hne, hlarge⟩
      have hon : s .sgx ≠ 0 := hoff (hvalue ▸ List.mem_append_right _ List.mem_cons_self)
      exact absurd (hsafe.resolve_left hon) (not_le.mpr hlarge)

end Check

/-! ## The changes that are asked for -/

/-- SGX is enabled unless it is, and disabled unless it is, if the epoch is that of the factory. An aperture that is
set already is left out. -/
def requestedChange (s : Store) : Cfg × String → Option Change
  | (.sgx, value) =>
    if value = "enable" then if s .sgx = 1 then none else some (.sgx 1)
    else if s .sgxToFactory = 0 ∨ s .sgx = 0 then none
    else some (.sgx 0)
  | (.gpuAperture, value) =>
    (apertureFromString value).bind fun code ↦ if code = s .gpuAperture then none else some (.aperture code)
  | _ => none

def requestedChanges (s : Store) (pairs : List (Cfg × String)) : List Change := pairs.filterMap (requestedChange s)

section Requested

variable {s : Store} {pairs : List (Cfg × String)}

theorem eval_descsOfEpoch (s : Store) (value : String) :
    (descsOfEpoch false value).eval (answers s) = if s .sgx ≠ 0 then epochDescs value else ([], none) := by
  rw [descsOfEpoch, if_neg Bool.false_ne_true, Prog.eval_bind, eval_isSgxEnabled]
  change (if decide (s .sgx ≠ 0) = true then _ else _) = _
  simp

theorem settled_subset (s : Store) (pushed : List Desc) (dsc : Option Desc) :
    settled s (pushed, dsc) = pushed ∨ settled s (pushed, dsc) = pushed ++ dsc.toList := by
  cases dsc with
  | none => exact .inl rfl
  | some dsc =>
    rw [settled]
    split_ifs
    · exact .inl rfl
    · exact .inr rfl

theorem changesAmong_settled {dscs : Descs} (hpushed : changesAmong dscs.1 = [])
    (hdsc : ∀ d ∈ dscs.2, d.change = none) : changesAmong (settled s dscs) = [] := by
  obtain ⟨pushed, dsc⟩ := dscs
  rcases settled_subset s pushed dsc with h | h
  · rw [h]
    exact hpushed
  · rw [h, changesAmong_append, hpushed, List.nil_append]
    apply List.filterMap_eq_nil_iff.mpr
    intro d hd
    exact hdsc d (Option.mem_toList.mp hd)

theorem changesAmong_epochDescs (s : Store) (value : String) : changesAmong (settled s (epochDescs value)) = [] := by
  rw [epochDescs]
  split_ifs
  · exact changesAmong_settled rfl fun d hd ↦ by cases hd; rfl
  · exact changesAmong_settled rfl fun d hd ↦ by cases hd; rfl
  · split
    · exact changesAmong_settled rfl fun d hd ↦ by cases hd; rfl
    · rfl

theorem changesAmong_added_sgx {value : String} (hvalue : value = "enable" ∨ value = "disable") :
    changesAmong (added false s (.sgx, value)) = (requestedChange s (.sgx, value)).toList := by
  change changesAmong (settled s ((descsOfSgx false value).eval (answers s))) = _
  rw [eval_descsOfSgx, if_neg Bool.false_ne_true, requestedChange]
  rcases hvalue with rfl | rfl
  · rw [if_neg (by decide), if_pos rfl, if_pos rfl, settled]
    by_cases hon : s .sgx = 1
    · rw [if_pos ⟨⟨BiosParam.noConfusion, BiosParam.noConfusion⟩, hon.symm⟩, if_pos hon]
      rfl
    · rw [if_neg fun h ↦ hon h.2.symm, if_neg hon]
      rfl
  · have hne : ¬"disable" = "enable" := by decide
    rw [if_pos rfl, if_neg hne]
    by_cases hfactory : s .sgxToFactory = 0
    · rw [if_neg fun h ↦ h hfactory, if_pos (.inl hfactory)]
      rfl
    · rw [if_pos hfactory, settled]
      by_cases hoff : s .sgx = 0
      · rw [if_pos ⟨⟨BiosParam.noConfusion, BiosParam.noConfusion⟩, hoff.symm⟩, if_pos (.inr hoff)]
        rfl
      · rw [if_neg fun h ↦ hoff h.2.symm, if_neg fun h ↦ h.elim hfactory hoff]
        rfl

theorem changesAmong_added_aperture (s : Store) (value : String) :
    changesAmong (added false s (.gpuAperture, value)) = (requestedChange s (.gpuAperture, value)).toList := by
  change changesAmong (settled s ([], apertureDesc false value)) = _
  rw [requestedChange, apertureDesc]
  cases hcode : apertureFromString value with
  | none => rfl
  | some code =>
    change changesAmong (settled s ([], some ⟨.gpuAperture, code⟩)) =
      (if code = s .gpuAperture then none else some (Change.aperture code)).toList
    rw [settled]
    by_cases hsame : code = s .gpuAperture
    · rw [if_pos ⟨⟨BiosParam.noConfusion, BiosParam.noConfusion⟩, hsame⟩, if_pos hsame]
      rfl
    · rw [if_neg fun h ↦ hsame h.2, if_neg hsame]
      rfl

theorem changesAmong_added {pair : Cfg × String} (haccept : acceptsValue pair.1 pair.2 = true) :
    changesAmong (added false s pair) = (requestedChange s pair).toList := by
  obtain ⟨cfg, value⟩ := pair
  cases cfg with
  | sgx =>
    apply changesAmong_added_sgx
    simpa [acceptsValue] using haccept
  | epoch =>
    change changesAmong (settled s ((descsOfEpoch false value).eval (answers s))) = _
    rw [eval_descsOfEpoch]
    split_ifs
    · exact changesAmong_epochDescs s value
    · rfl
  | prm =>
    change changesAmong (settled s ((descsOfPrm false value).eval (answers s))) = _
    rw [eval_descsOfPrm]
    apply changesAmong_settled rfl
    intro d hd
    split_ifs at hd
    · obtain ⟨size, -, rfl⟩ := Option.map_eq_some_iff.mp hd
      rfl
    · cases hd
  | gpuAperture => exact changesAmong_added_aperture s value
  | tdp =>
    apply changesAmong_settled rfl
    intro d hd
    obtain ⟨level, -, rfl⟩ := Option.map_eq_some_iff.mp hd
    rfl
  | ht => exact changesAmong_settled rfl fun d hd ↦ by cases hd; rfl
  | gpu => exact changesAmong_settled rfl fun d hd ↦ by cases hd; rfl

theorem changesAmong_changesOf (haccept : ∀ pair ∈ pairs, acceptsValue pair.1 pair.2 = true) :
    changesAmong (changesOf false s pairs) = requestedChanges s pairs := by
  induction pairs with
  | nil => rfl
  | cons pair pairs ih =>
    have hpair := haccept pair List.mem_cons_self
    have hrest : ∀ pair ∈ pairs, acceptsValue pair.1 pair.2 = true :=
      fun pair h ↦ haccept pair (List.mem_cons_of_mem _ h)
    rw [changesOf, List.flatMap_cons, changesAmong_append, changesAmong_added hpair]
    change _ ++ changesAmong (changesOf false s pairs) = _
    rw [ih hrest, requestedChanges, requestedChanges, List.filterMap_cons]
    cases requestedChange s pair with
    | none => rfl
    | some c => rfl

theorem enabled_of_requestedChanges (h : .sgx 0 ∈ requestedChanges s pairs) : s .sgx ≠ 0 := by
  obtain ⟨⟨cfg, value⟩, -, hpair⟩ := List.mem_filterMap.mp h
  cases cfg with
  | sgx =>
    rw [requestedChange] at hpair
    split_ifs at hpair with henable hon hoff
    · cases hpair
    · exact fun hzero ↦ hoff (.inr hzero)
  | gpuAperture =>
    obtain ⟨code, -, hcode⟩ := Option.bind_eq_some_iff.mp hpair
    split_ifs at hcode
    cases hcode
  | _ => cases hpair

/-- **The check.** What is written after it is safe throughout, if and only if the changes suit the store. -/
theorem keeps_checked_iff (hsafe : s.setting.Safe) (haccept : ∀ pair ∈ pairs, acceptsValue pair.1 pair.2 = true) :
    s.setting.Keeps (changesAmong (checked s (changesOf false s pairs))) ↔
      Suits s.setting (requestedChanges s pairs) := by
  have hchanges := @changesAmong_changesOf s pairs haccept
  constructor
  · intro hkeeps
    rcases shapes (requestedChanges s pairs) with ⟨values, h⟩ | ⟨codes, h, hne⟩ | ⟨cs, value, codes, code, h⟩ |
      ⟨cs, code, values, value, h⟩
    · rw [h]
      exact .sgx values
    · rw [h]
      exact .aperture codes ((keeps_onlyAperture (hchanges.trans h) hne).mp hkeeps)
    · rw [h]
      exact .sgxFirst cs value codes code ((keeps_sgxFirst (hchanges.trans h)).mp hkeeps)
    · rw [h]
      exact .apertureFirst cs code values value ((keeps_apertureFirst (hchanges.trans h)).mp hkeeps)
  · intro hsuits
    generalize hcs : requestedChanges s pairs = cs at hsuits hchanges
    cases hsuits with
    | sgx values =>
      apply keeps_onlySgx hchanges hsafe
      intro hzero
      apply @enabled_of_requestedChanges s pairs
      rw [hcs]
      exact List.mem_map_of_mem hzero
    | aperture codes h =>
      rcases eq_or_ne codes [] with rfl | hne
      · exact @keeps_onlySgx s _ [] hchanges hsafe fun hzero ↦ absurd hzero List.not_mem_nil
      · exact (keeps_onlyAperture hchanges hne).mpr h
    | sgxFirst cs value codes code h => exact (keeps_sgxFirst hchanges).mpr h
    | apertureFirst cs code values value h => exact (keeps_apertureFirst hchanges).mpr h

end Requested

/-! ## Runs -/

/-- After a write, the settings are safe. -/
def WriteSafe : Store → Event Op Op.Answer → Store → Prop := fun _ e s' ↦ e.1.isSet = true → s'.setting.Safe

section Runs

variable {gen1 onlyTdp : Bool} {s t : Store} {pairs : List (Cfg × String)} {tr w r : Run} {b : Bool} {attempts : ℕ}
  {desc : List Desc}

theorem setting_write (s : Store) (dsc : Desc) :
    (s.write dsc).setting = dsc.change.elim s.setting s.setting.make := by
  obtain ⟨param, value⟩ := dsc
  cases param <;> rfl

/-- The writes of an attempt are safe if their changes are. -/
theorem along_writeDescs (hsafe : s.setting.Safe) (hw : (writeDescs desc).Performs w ()) :
    Along WriteSafe serve s w ↔ s.setting.Keeps (changesAmong desc) := by
  induction desc generalizing s w with
  | nil =>
    obtain ⟨rfl, -⟩ := hw
    exact iff_of_true trivial trivial
  | cons dsc desc ih =>
    obtain ⟨ok, w', rfl, hw'⟩ := performs_ask.mp hw
    have hstep : Along WriteSafe serve s (⟨.set dsc.param dsc.value, ok⟩ :: w') ↔
        (s.write dsc).setting.Safe ∧ Along WriteSafe serve (s.write dsc) w' := by
      constructor
      · intro h
        obtain ⟨hset, hrest⟩ := h _ rfl
        exact ⟨hset rfl, hrest⟩
      · rintro ⟨hset, hrest⟩ s' hs'
        obtain rfl : s.write dsc = s' := Option.some_inj.mp hs'
        exact ⟨fun _ ↦ hset, hrest⟩
    rw [hstep]
    cases hchange : dsc.change with
    | none =>
      have hsame : (s.write dsc).setting = s.setting := by rw [setting_write, hchange, Option.elim_none]
      rw [changesAmong, List.filterMap_cons_none hchange, hsame, and_iff_right hsafe, ← hsame]
      exact ih (hsame ▸ hsafe) hw'
    | some c =>
      have hmade : (s.write dsc).setting = s.setting.make c := by rw [setting_write, hchange, Option.elim_some]
      rw [changesAmong_cons hchange, Setting.Keeps, ← hmade]
      exact and_congr_right fun hnext ↦ ih hnext hw'

theorem eval_readBack (s : Store) (desc : List Desc) : (readBack desc true).eval (answers s) = true := by
  induction desc with
  | nil => rfl
  | cons dsc desc ih => exact ih

theorem reads_readBack (desc : List Desc) (ret : Bool) : (readBack desc ret).Only Op.Reads := by
  induction desc generalizing ret with
  | nil => exact reads_pure _
  | cons dsc desc ih => exact Prog.Only.bind (reads_get _) fun answer ↦ ih _

/-- What is written can be read back, so there is one attempt. -/
theorem served_applyDescs (h : (applyDescs gen1 onlyTdp desc (attempts + 1)).Performs tr b)
    (ht : exec serve s tr = some t) :
    ∃ w rest, tr = w ++ rest ∧ (writeDescs desc).Performs w () ∧ ∀ e ∈ rest, e.1.isSet = false := by
  obtain ⟨⟨⟩, w, tr', rfl, hw, h'⟩ := Prog.performs_bind.mp h
  obtain ⟨ready, mid, tr'', rfl, hmid, h''⟩ := Prog.performs_bind.mp h'
  refine ⟨w, mid ++ tr'', rfl, hw, ?_⟩
  have hrest : ∀ e ∈ tr'', e.1.isSet = false := by
    cases ready with
    | false =>
      obtain ⟨rfl, -⟩ := h''
      exact fun e he ↦ absurd he List.not_mem_nil
    | true =>
      -- every read-back succeeds, whatever it gives
      obtain ⟨u, -, hu⟩ := exec_append.mp ht
      obtain ⟨v, -, hv⟩ := exec_append.mp hu
      obtain ⟨r, tr₃, rfl, hr, -, hret, -⟩ := (yields_of_reads (reads_readBack desc true)).performs_bind h'' hv
      rw [eval_readBack] at hret
      obtain ⟨rfl, -⟩ := hret
      rw [List.append_nil]
      exact fun e he ↦ Op.isSet_of_isGet (isGet_of_readBack hr e he)
  exact List.forall_mem_append.mpr ⟨fun e he ↦ (mid_of_makeReady hmid e he).1, hrest⟩

theorem along_of_quiet (htr : ∀ e ∈ tr, e.1.isSet = false) : Along WriteSafe serve s tr := by
  apply along_of_mem
  intro e he _ _ hset
  rw [htr e he] at hset
  cases hset

theorem writes_eq_checked (s : Store) (pairs : List (Cfg × String)) :
    writes false s pairs = checked s (changesOf false s pairs) := by
  rw [writes]
  split_ifs with hnil
  · rw [hnil]
    rfl
  · rfl

/-- The runs are safe if and only if what is written is. -/
theorem along_iff_keeps (hsafe : s.setting.Safe) :
    (∀ tr b t, (setBiosCfg gen1 (pairs.map Prod.fst) (pairs.map Prod.snd)).Performs tr b →
      exec serve s tr = some t → Along WriteSafe serve s tr) ↔
        s.setting.Keeps (changesAmong (writes gen1 s pairs)) := by
  have hzip : (pairs.map Prod.fst).zip (pairs.map Prod.snd) = pairs := (List.zip_of_prod rfl rfl).symm
  constructor
  · intro halong
    by_cases hnil : writes gen1 s pairs = []
    · rw [hnil]
      trivial
    · obtain ⟨tr, b, t, h, ht, onlyTdp, attempts, tr₁, tr₂, rfl, hstart, hloop⟩ := exists_served hnil
      have hloop' := (halong _ b t h ht).of_append hstart
      obtain ⟨⟨⟩, w, rest, rfl, hw, -⟩ := Prog.performs_bind.mp hloop
      obtain ⟨u, hu, hrest⟩ := exec_append.mp ht
      -- the first attempt starts in the store that was read
      obtain rfl : s = u := Option.some_inj.mp (hstart.symm.trans hu)
      obtain ⟨v, hv, -⟩ := exec_append.mp hrest
      exact (along_writeDescs hsafe hw).mp (hloop'.2.of_append hv).1
  · intro hkeeps tr b t h ht
    rcases served_setBiosCfg h ht with hquiet | ⟨-, onlyTdp, attempts, tr₁, tr₂, rfl, hquiet, hloop, hstart, hend⟩
    · exact along_of_quiet hquiet
    · rw [hzip] at hloop
      obtain ⟨w, rest, rfl, hw, hrest⟩ := served_applyDescs hloop hend
      obtain ⟨v, hv, -⟩ := exec_append.mp hend
      have hwrites := ((along_writeDescs hsafe hw).mpr hkeeps).append hv (along_of_quiet hrest)
      exact (along_of_quiet hquiet).append hstart hwrites

end Runs

/-- **SGX and the aperture are combined safely** after every write of every run, if and only if the changes that the
pairs ask for suit the store. -/
theorem writes_safe_iff {s : Store} {pairs : List (Cfg × String)} {holder : Holder}
    (h : parseArgs (spelled pairs) = some holder) (hsafe : s .sgx = 0 ∨ s .gpuAperture ≤ 3) :
    (∀ tr b t, (setBiosCfg false holder.names holder.values).Performs tr b → exec serve s tr = some t →
      Along (fun _ e s' ↦ e.1.isSet = true → s' .sgx = 0 ∨ s' .gpuAperture ≤ 3) serve s tr) ↔
        Suits s.setting (requestedChanges s pairs) := by
  obtain ⟨rfl, haccept⟩ := parseArgs_spelled h
  rw [← keeps_checked_iff hsafe haccept, ← writes_eq_checked]
  exact along_iff_keeps hsafe

/-- SGX that is enabled together with a small aperture. -/
theorem enable_with_small_aperture :
    (∀ tr b t, (setBiosCfg false [.sgx, .gpuAperture] ["enable", "256"]).Performs tr b →
      exec serve (fun _ ↦ 0) tr = some t →
      Along (fun _ e s' ↦ e.1.isSet = true → s' .sgx = 0 ∨ s' .gpuAperture ≤ 3) serve (fun _ ↦ 0) tr) ↔
        Suits (Store.setting fun _ ↦ 0) (requestedChanges (fun _ ↦ 0) [(.sgx, "enable"), (.gpuAperture, "256")]) :=
  @writes_safe_iff (fun _ ↦ 0) [(.sgx, "enable"), (.gpuAperture, "256")] ⟨[.sgx, .gpuAperture], ["enable", "256"]⟩
    (by decide) (.inl rfl)

/-- Of two apertures only the last is compared with SGX, and the first is written. -/
theorem large_aperture_written :
    parseArgs (spelled [(.gpuAperture, "2048"), (.gpuAperture, "128")]) =
        some ⟨[.gpuAperture, .gpuAperture], ["2048", "128"]⟩ ∧
      ∃ tr b t, (setBiosCfg false [.gpuAperture, .gpuAperture] ["2048", "128"]).Performs tr b ∧
        exec serve (fun _ ↦ 1) tr = some t ∧
        ¬Along (fun _ e s' ↦ e.1.isSet = true → s' .sgx = 0 ∨ s' .gpuAperture ≤ 3) serve (fun _ ↦ 1) tr := by
  refine ⟨by decide, [⟨.getCpuState, CpuState.biosReady⟩, ⟨.get .gpuAperture, (true, 1)⟩,
    ⟨.get .gpuAperture, (true, 1)⟩, ⟨.get .sgx, (true, 1)⟩, ⟨.set .gpuAperture 15, true⟩, ⟨.set .gpuAperture 0, true⟩,
    ⟨.pressPowerButton true, true⟩, ⟨.pressPowerButton false, true⟩, ⟨.waitBios, true⟩, ⟨.setLbpParam, true⟩,
    ⟨.handshake, true⟩, ⟨.get .gpuAperture, (true, 0)⟩, ⟨.get .gpuAperture, (true, 0)⟩], true, _, ?_, rfl, ?_⟩
  · exact ⟨_, _, rfl, _, _, rfl, _, _, rfl, _, _, rfl, _, _, rfl, _, _, rfl, _, _, rfl, _, _, rfl, _, _, rfl, _, _, rfl,
      _, _, rfl, _, _, rfl, _, _, rfl, rfl, rfl⟩
  · intro h
    -- after the first write SGX is still enabled, and the aperture has 2048 MB
    have hwrite := ((((h _ rfl).2 _ rfl).2 _ rfl).2 _ rfl).2 _ rfl
    rcases hwrite.1 rfl with hoff | hsmall
    · exact absurd hoff (by decide)
    · exact absurd hsmall (by decide)

end Vcass.Vcactl.BiosCfg
