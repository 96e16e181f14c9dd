import Mathlib.Data.List.TakeWhile
import Vcass.Config.Parser

/-!
# What is read after a field was written

A field takes the texts of some elements of the file, one after the other, and keeps the last one that is not
empty. These texts are the *slots* of the field; those that its `save` function replaces are marked. So the
value that was written is read again if and only if it is in the last slot that counts, or the field has it
anyway.

The writer and the reader are followed through the same levels of the file. At each of them the marked slots
are the ones in which the two agree: a card or a CPU that the reader takes for the one with a given number is
taken for it by the writer too, provided that the writer gets through at all.
-/

namespace Vcass.Config

open LastWrite

/-! ## Slots -/

/-- The first of some texts is the one that is replaced. -/
def markFirst : List String → List (Bool × String)
  | [] => []
  | d :: ds => (true, d) :: ds.map fun d ↦ (false, d)

/-- The reader takes the element for the one with the number. -/
def readsId (bound id : ℕ) (t : Ptree) : Bool :=
  match t.attr "id" with
  | none => false
  | some s => isUnsignedNumber s && atoi s < bound && atoi s = id

def readsCard (env : Env) (card : ℕ) (t : Ptree) : Bool :=
  readsId maxCards card t && t.attr "type" = some (toString (fakedCardType (env.cardType card)))

section Slots

variable {α : Type} (env : Env)

/-- Something is collected from the children of a name. -/
def collect (name : String) (f : Ptree → List α) (t : Ptree) : List α :=
  t.children.flatMap fun c ↦ if c.1 = name then f c.2 else []

/-- Something is collected from the CPUs that the reader takes for a given one. -/
def collectCpus (card cpu : ℕ) (f : Ptree → List α) (root : Ptree) : List α :=
  collect "card" (fun t ↦ if readsCard env card t then
    collect "cpu" (fun t ↦ if readsId maxCpu cpu t then f t else []) t else []) root

/-- The devices of the first `block-devs` are read once for each `block-devs`. -/
def collectBlk (dev : ℕ) (f : String × Ptree → List α) (t : Ptree) : List α :=
  collect "block-devs" (fun _ ↦ match t.getChild "block-devs" with
    | none => []
    | some devs => devs.children.flatMap fun c ↦ if extractBlockDevId c.1 = some dev then f c else []) t

def markDev (dev : ℕ) (name : String) (c : String × Ptree) : List (Bool × String) :=
  if c.1 = getBlockDevNameFromId dev then markFirst (c.2.datas name)
  else (c.2.datas name).map fun d ↦ (false, d)

/-- The slots of a field. -/
def slots (root : Ptree) : Field → List (Bool × String)
  | .global f => match root.getChild "global" with
    | none => []
    | some node => markFirst (node.datas f.dataField.name)
  | .cpu card cpu f =>
    if f = .blockDevs then []
    else collectCpus env card cpu (fun t ↦ markFirst (t.datas f.dataField.name)) root
  | .blk card cpu dev f => collectCpus env card cpu (collectBlk dev (markDev dev f.dataField.name)) root

/-- The card and the CPU of a field. -/
def Field.node : Field → Option (ℕ × ℕ)
  | .global _ => none
  | .cpu i j _ => some (i, j)
  | .blk i j _ _ => some (i, j)

/-- The texts that the element of its CPU has for a field. -/
def givenByCpu (t : Ptree) : Field → List String
  | .global _ => []
  | .cpu _ _ f => if f = .blockDevs then [] else t.datas f.dataField.name
  | .blk _ _ dev f => collectBlk dev (fun c ↦ c.2.datas f.dataField.name) t

end Slots

/-! ## Reading -/

/-- A step of the reader gives a field some texts. -/
def Gives (step : VcaConfig → VcaConfig) (field : Field) (ds : List String) : Prop :=
  ∀ cfg, (step cfg).fields field = settle "" (cfg.fields field) ds

section Reading

variable {field : Field} {step step' : VcaConfig → VcaConfig} {ds ds' : List String} {t : Ptree}
  {card cpu dev : ℕ}

theorem Gives.comp (h : Gives step field ds) (h' : Gives step' field ds') :
    Gives (fun cfg ↦ step' (step cfg)) field (ds ++ ds') := by
  intro cfg
  rw [settle_append, ← h cfg]
  exact h' (step cfg)

theorem gives_id : Gives id field [] := fun _ ↦ rfl

theorem Gives.foldl {β : Type} {f : VcaConfig → β → VcaConfig} {g : β → List String} {xs : List β}
    (h : ∀ x ∈ xs, Gives (fun cfg ↦ f cfg x) field (g x)) :
    Gives (fun cfg ↦ xs.foldl f cfg) field (xs.flatMap g) := by
  induction xs with
  | nil => exact gives_id
  | cons x xs ih =>
    rw [List.flatMap_cons]
    exact (h x List.mem_cons_self).comp (ih fun y hy ↦ h y (List.mem_cons_of_mem x hy))

theorem gives_trySet (field field' : Field) (val : String) :
    Gives (trySetDataField val field') field (if field = field' then [val] else []) := by
  intro cfg
  rw [trySetDataField]
  by_cases h : field = field'
  · rw [if_pos h, h]
    exact Function.update_self ..
  · rw [if_neg h]
    exact Function.update_of_ne h ..

/-- The texts of the children of a name, one child at a time. -/
theorem datas_eq_flatMap (t : Ptree) (name : String) :
    t.datas name = t.children.flatMap fun c ↦ if c.1 = name then [c.2.data] else [] := by
  rw [Ptree.datas]
  induction t.children with
  | nil => rfl
  | cons c cs ih =>
    rw [List.flatMap_cons, ← ih, List.filter_cons]
    by_cases h : c.1 = name
    · rw [if_pos (by simpa using h), if_pos h]
      rfl
    · rw [if_neg (by simpa using h), if_neg h]
      rfl

theorem gives_child {φ : Type} {all : List φ} {fieldOf : φ → DataField} {mk : φ → Field} {f : φ}
    (hall : ∀ f, all.find? (fun g ↦ (fieldOf g).name = (fieldOf f).name) = some f)
    (hmk : ∀ g, mk f = mk g → f = g) (c : String × Ptree) :
    Gives (parseField all fieldOf mk c) (mk f) (if c.1 = (fieldOf f).name then [c.2.data] else []) := by
  unfold parseField
  by_cases hc : c.1 = (fieldOf f).name
  · rw [if_pos hc, hc, hall f]
    have hgives := gives_trySet (mk f) (mk f) c.2.data
    rwa [if_pos rfl] at hgives
  · rw [if_neg hc]
    cases hfind : all.find? fun g ↦ (fieldOf g).name = c.1 with
    | none => exact gives_id
    | some g =>
      have hg : (fieldOf g).name = c.1 := by simpa using List.find?_some hfind
      have hne : ¬ mk f = mk g := fun heq ↦ hc (by rw [hmk g heq, hg])
      have hgives := gives_trySet (mk f) (mk g) c.2.data
      rwa [if_neg hne] at hgives

theorem gives_other {φ : Type} {all : List φ} {fieldOf : φ → DataField} {mk : φ → Field}
    (hfield : ∀ g, field ≠ mk g) (c : String × Ptree) :
    Gives (parseField all fieldOf mk c) field [] := by
  unfold parseField
  cases all.find? fun g ↦ (fieldOf g).name = c.1 with
  | none => exact gives_id
  | some g =>
    have hgives := gives_trySet field (mk g) c.2.data
    rwa [if_neg (hfield g)] at hgives

theorem find_globalField (f : GlobalField) :
    GlobalField.all.find? (fun g ↦ g.dataField.name = f.dataField.name) = some f := by
  cases f <;> decide

theorem find_cpuField (f : CpuField) : CpuField.all.find? (fun g ↦ g.dataField.name = f.dataField.name) = some f := by
  cases f <;> decide

theorem find_blkDevField (f : BlkDevField) :
    BlkDevField.all.find? (fun g ↦ g.dataField.name = f.dataField.name) = some f := by
  cases f <;> decide

theorem Gives.foldl_nil {β : Type} {f : VcaConfig → β → VcaConfig} {xs : List β}
    (h : ∀ x, Gives (fun cfg ↦ f cfg x) field []) : Gives (fun cfg ↦ xs.foldl f cfg) field [] := by
  induction xs with
  | nil => exact gives_id
  | cons x xs ih => exact (h x).comp ih

theorem gives_global (f : GlobalField) (node : Ptree) :
    Gives (fun cfg ↦ node.children.foldl parseGlobalChild cfg) (.global f) (node.datas f.dataField.name) := by
  rw [datas_eq_flatMap]
  exact Gives.foldl fun c _ ↦ gives_child find_globalField (fun g h ↦ Field.global.inj h) c

theorem gives_global_other (hfield : ∀ f, field ≠ .global f) (node : Ptree) :
    Gives (fun cfg ↦ node.children.foldl parseGlobalChild cfg) field [] :=
  Gives.foldl_nil fun c ↦ gives_other hfield c

/-- Which devices exist is nothing that a field depends on. -/
theorem gives_exist (step : VcaConfig → VcaConfig) {f : VcaConfig → ℕ → ℕ → ℕ → Bool} (h : Gives step field ds) :
    Gives (fun cfg ↦ step { cfg with exist := f cfg }) field ds :=
  fun cfg ↦ h { cfg with exist := f cfg }

theorem gives_blkDev (card cpu dev : ℕ) (f : BlkDevField) (c : String × Ptree) :
    Gives (fun cfg ↦ parseBlkDev card cpu cfg c) (.blk card cpu dev f)
      (if extractBlockDevId c.1 = some dev then c.2.datas f.dataField.name else []) := by
  unfold parseBlkDev
  cases hdev : extractBlockDevId c.1 with
  | none => exact gives_id
  | some dev' =>
    refine gives_exist (fun cfg ↦ c.2.children.foldl (parseBlkChild card cpu dev') cfg) ?_
    by_cases h : dev' = dev
    · subst h
      rw [if_pos rfl, datas_eq_flatMap]
      exact Gives.foldl fun c _ ↦ gives_child find_blkDevField (fun g h ↦ (Field.blk.inj h).2.2.2) c
    · rw [if_neg fun heq ↦ h (Option.some_inj.mp heq)]
      exact Gives.foldl_nil fun c ↦ gives_other (fun g heq ↦ h (Field.blk.inj heq).2.2.1.symm) c

theorem gives_blkDev_other (hfield : ∀ dev f, field ≠ .blk card cpu dev f) (c : String × Ptree) :
    Gives (fun cfg ↦ parseBlkDev card cpu cfg c) field [] := by
  unfold parseBlkDev
  cases extractBlockDevId c.1 with
  | none => exact gives_id
  | some dev =>
    refine gives_exist (fun cfg ↦ c.2.children.foldl (parseBlkChild card cpu dev) cfg) ?_
    exact Gives.foldl_nil fun c ↦ gives_other (hfield dev) c

theorem gives_blkDevs (card cpu dev : ℕ) (f : BlkDevField) (t : Ptree) :
    Gives (parseBlkDevs card cpu t) (.blk card cpu dev f)
      (match t.getChild "block-devs" with
      | none => []
      | some devs => devs.children.flatMap fun c ↦
          if extractBlockDevId c.1 = some dev then c.2.datas f.dataField.name else []) := by
  unfold parseBlkDevs
  change Gives (fun cfg ↦ match t.getChild "block-devs" with | none => cfg | some devs => _) _ _
  cases t.getChild "block-devs" with
  | none => exact gives_id
  | some devs => exact Gives.foldl fun c _ ↦ gives_blkDev card cpu dev f c

theorem gives_blkDevs_other (hfield : ∀ dev f, field ≠ .blk card cpu dev f) (t : Ptree) :
    Gives (parseBlkDevs card cpu t) field [] := by
  unfold parseBlkDevs
  cases t.getChild CpuField.blockDevs.dataField.name with
  | none => exact gives_id
  | some devs => exact Gives.foldl_nil fun c ↦ gives_blkDev_other hfield c

theorem name_ne_blockDevs {f : CpuField} (hf : f ≠ .blockDevs) :
    CpuField.blockDevs.dataField.name ≠ f.dataField.name := by
  intro heq
  have hfind := find_cpuField f
  rw [← heq, find_cpuField, Option.some_inj] at hfind
  exact hf hfind.symm

theorem gives_cpuField (i j : ℕ) (f : CpuField) (c : String × Ptree) :
    Gives (parseField CpuField.all CpuField.dataField (.cpu i j) c) (.cpu i j f)
      (if c.1 = f.dataField.name then [c.2.data] else []) :=
  gives_child find_cpuField (fun _ h ↦ (Field.cpu.inj h).2.2) c

/-- What the element of a CPU gives to the fields of the CPU and of its block devices. -/
theorem gives_cpu (hnode : field.node = some (card, cpu)) (t : Ptree) :
    Gives (fun cfg ↦ t.children.foldl (parseCpuChild card cpu t) cfg) field (givenByCpu t field) := by
  cases field with
  | global f => cases hnode
  | cpu i j f =>
    obtain ⟨rfl, rfl⟩ := Prod.mk.inj (Option.some_inj.mp hnode)
    have hblk : Gives (parseBlkDevs i j t) (.cpu i j f) [] :=
      gives_blkDevs_other (fun _ _ h ↦ Field.noConfusion h) t
    by_cases hf : f = .blockDevs
    · rw [givenByCpu, if_pos hf]
      apply Gives.foldl_nil
      intro c
      unfold parseCpuChild
      split_ifs with hc
      · exact hblk
      · have hgives := gives_cpuField i j f c
        rwa [if_neg (by rw [hf]; exact hc)] at hgives
    · rw [givenByCpu, if_neg hf, datas_eq_flatMap]
      apply Gives.foldl
      intro c _
      unfold parseCpuChild
      by_cases hc : c.1 = CpuField.blockDevs.dataField.name
      · simp only [if_pos hc]
        rw [if_neg fun hname ↦ name_ne_blockDevs hf (hc.symm.trans hname)]
        exact hblk
      · simp only [if_neg hc]
        exact gives_cpuField i j f c
  | blk i j dev f =>
    obtain ⟨rfl, rfl⟩ := Prod.mk.inj (Option.some_inj.mp hnode)
    rw [givenByCpu, collectBlk, collect]
    apply Gives.foldl
    intro c _
    unfold parseCpuChild
    change Gives (fun cfg ↦ if c.1 = "block-devs" then parseBlkDevs i j t cfg else _) _ _
    by_cases hc : c.1 = "block-devs"
    · simp only [if_pos hc]
      exact gives_blkDevs i j dev f t
    · simp only [if_neg hc]
      exact gives_other (fun _ h ↦ Field.noConfusion h) c

theorem gives_cpu_other (hnode : field.node ≠ some (card, cpu)) (t : Ptree) :
    Gives (fun cfg ↦ t.children.foldl (parseCpuChild card cpu t) cfg) field [] := by
  have hcpu : ∀ f, field ≠ .cpu card cpu f := by
    rintro f rfl
    exact hnode rfl
  have hblk : ∀ dev f, field ≠ .blk card cpu dev f := by
    rintro dev f rfl
    exact hnode rfl
  apply Gives.foldl_nil
  intro c
  unfold parseCpuChild
  split_ifs
  · exact gives_blkDevs_other hblk t
  · exact gives_other hcpu c

/-- The elements with an `id`. -/
def HaveId (name : String) (cs : List (String × Ptree)) : Prop := ∀ c ∈ cs, c.1 = name → (c.2.attr "id").isSome

theorem gives_parseCpu {cs : List (String × Ptree)} (hnode : field.node = some (card, cpu)) (hid : HaveId "cpu" cs) :
    Gives (fun cfg ↦ (parseCpu card cs cfg).1) field
      (cs.flatMap fun c ↦ if c.1 = "cpu" then if readsId maxCpu cpu c.2 then givenByCpu c.2 field else [] else []) := by
  induction cs with
  | nil => exact gives_id
  | cons c cs ih =>
    have htail := ih fun d hd ↦ hid d (List.mem_cons_of_mem c hd)
    rw [List.flatMap_cons]
    unfold parseCpu
    by_cases hc : c.1 = "cpu"
    · obtain ⟨id, hattr⟩ := Option.isSome_iff_exists.mp (hid c List.mem_cons_self hc)
      simp only [if_pos hc, hattr, readsId]
      by_cases hnum : (isUnsignedNumber id && decide (atoi id < maxCpu)) = true
      · simp only [hnum, Bool.true_and, decide_eq_true_eq]
        by_cases hid' : atoi id = cpu
        · rw [if_pos hid']
          exact (gives_cpu (by rw [hid']; exact hnode) c.2).comp htail
        · rw [if_neg hid']
          refine (gives_cpu_other (fun heq ↦ hid' ?_) c.2).comp htail
          exact (Prod.mk.inj (Option.some_inj.mp (heq.symm.trans hnode))).2
      · simp only [Bool.eq_false_iff.mpr hnum, Bool.false_and, Bool.false_eq_true, if_false]
        exact htail
    · simp only [if_neg hc]
      exact htail

theorem gives_parseCpu_other {cs : List (String × Ptree)} (hnode : ∀ cpu, field.node ≠ some (card, cpu)) :
    Gives (fun cfg ↦ (parseCpu card cs cfg).1) field [] := by
  induction cs with
  | nil => exact gives_id
  | cons c cs ih =>
    unfold parseCpu
    split_ifs
    · cases c.2.attr "id" with
      | none => exact gives_id
      | some id =>
        dsimp only
        split_ifs
        · exact (gives_cpu_other (hnode _) c.2).comp ih
        · exact ih
    · exact ih

/-- A card that does not make the file invalid. -/
def CardOk (t : Ptree) : Prop :=
  ∃ id, t.attr "id" = some id ∧
    ((isUnsignedNumber id && decide (atoi id < maxCards)) = true → ∃ type, t.attr "type" = some type)

theorem parseCard_accepts {env : Env} {cs : List (String × Ptree)} {cfg : VcaConfig}
    (h : (parseCard env cs cfg).2 = true) : ∀ c ∈ cs, c.1 = "card" → CardOk c.2 := by
  induction cs generalizing cfg with
  | nil => exact fun c hc ↦ absurd hc List.not_mem_nil
  | cons c cs ih =>
    intro d hd hname
    unfold parseCard at h
    by_cases hc : c.1 = "card"
    · rw [if_pos hc] at h
      cases hattr : c.2.attr "id" with
      | none =>
        simp only [hattr] at h
        exact absurd h Bool.false_ne_true
      | some id =>
        simp only [hattr] at h
        by_cases hnum : (isUnsignedNumber id && decide (atoi id < maxCards)) = true
        · rw [if_pos hnum] at h
          cases htype : c.2.attr "type" with
          | none =>
            simp only [htype] at h
            exact absurd h Bool.false_ne_true
          | some type =>
            simp only [htype] at h
            rcases List.mem_cons.mp hd with rfl | hd
            · exact ⟨id, hattr, fun _ ↦ ⟨type, htype⟩⟩
            · split_ifs at h
              · exact ih h d hd hname
              · exact ih h d hd hname
        · rw [if_neg hnum] at h
          rcases List.mem_cons.mp hd with rfl | hd
          · exact ⟨id, hattr, fun hnum' ↦ absurd hnum' hnum⟩
          · exact ih h d hd hname
    · rw [if_neg hc] at h
      rcases List.mem_cons.mp hd with rfl | hd
      · exact absurd hname hc
      · exact ih h d hd hname

theorem gives_parseCard {env : Env} {cs : List (String × Ptree)} (hnode : field.node = some (card, cpu))
    (hok : ∀ c ∈ cs, c.1 = "card" → CardOk c.2)
    (hid : ∀ c ∈ cs, c.1 = "card" → readsCard env card c.2 → HaveId "cpu" c.2.children) :
    Gives (fun cfg ↦ (parseCard env cs cfg).1) field
      (cs.flatMap fun c ↦ if c.1 = "card" then if readsCard env card c.2 then
        collect "cpu" (fun t ↦ if readsId maxCpu cpu t then givenByCpu t field else []) c.2 else [] else []) := by
  induction cs with
  | nil => exact gives_id
  | cons c cs ih =>
    have htail := ih (fun d hd ↦ hok d (List.mem_cons_of_mem c hd)) fun d hd ↦ hid d (List.mem_cons_of_mem c hd)
    have hidc := hid c List.mem_cons_self
    rw [List.flatMap_cons]
    unfold parseCard
    by_cases hc : c.1 = "card"
    · obtain ⟨id, hattr, htype⟩ := hok c List.mem_cons_self hc
      simp only [if_pos hc, hattr]
      by_cases hnum : (isUnsignedNumber id && decide (atoi id < maxCards)) = true
      · obtain ⟨type, htype⟩ := htype hnum
        have hreads : readsCard env card c.2 =
            (decide (atoi id = card) && decide (type = toString (fakedCardType (env.cardType card)))) := by
          simp only [readsCard, readsId, hattr, hnum, htype, Bool.true_and, Option.some_inj]
        simp only [hnum, htype, if_true]
        by_cases hid' : atoi id = card
        · by_cases htype' : type = toString (fakedCardType (env.cardType card))
          · have hreads' : readsCard env card c.2 = true := by
              rw [hreads, decide_eq_true hid', decide_eq_true htype', Bool.true_and]
            simp only [hid', htype', hreads', if_true]
            exact (gives_parseCpu hnode (hidc hc hreads')).comp htail
          · have hreads' : readsCard env card c.2 = false := by
              rw [hreads, decide_eq_false htype', Bool.and_false]
            simp only [hid', htype', hreads', if_false, Bool.false_eq_true]
            exact htail
        · have hreads' : readsCard env card c.2 = false := by
            rw [hreads, decide_eq_false hid', Bool.false_and]
          simp only [hreads', Bool.false_eq_true, if_false]
          have hother : ∀ j, field.node ≠ some (atoi id, j) := by
            intro j heq
            exact hid' (Prod.mk.inj (Option.some_inj.mp (heq.symm.trans hnode))).1
          split_ifs
          · exact (gives_parseCpu_other hother).comp htail
          · exact htail
      · have hreads' : readsCard env card c.2 = false := by
          simp only [readsCard, readsId, hattr, Bool.eq_false_iff.mpr hnum, Bool.false_and]
        simp only [Bool.eq_false_iff.mpr hnum, hreads', Bool.false_eq_true, if_false]
        exact htail
    · simp only [if_neg hc]
      exact htail

theorem gives_parseCard_global (env : Env) (cs : List (String × Ptree)) (hnode : field.node = none) :
    Gives (fun cfg ↦ (parseCard env cs cfg).1) field [] := by
  have hother (i : ℕ) : ∀ j, field.node ≠ some (i, j) := by
    intro j heq
    cases hnode.symm.trans heq
  induction cs with
  | nil => exact gives_id
  | cons c cs ih =>
    unfold parseCard
    split_ifs
    · cases c.2.attr "id" with
      | none => exact gives_id
      | some id =>
        dsimp only
        split_ifs
        · cases c.2.attr "type" with
          | none => exact gives_id
          | some type =>
            dsimp only
            split_ifs
            · exact (gives_parseCpu_other (hother _)).comp ih
            · exact ih
        · exact ih
    · exact ih

end Reading

/-! ## Writing -/

section Writing

variable {env : Env} {name value : String} {t t' root root' : Ptree} {card cpu dev id bound : ℕ}

theorem overwrite_false (ds : List String) : overwrite value (ds.map fun d ↦ (false, d)) = ds := by
  rw [overwrite, List.map_map]
  exact List.map_id'' (fun _ ↦ rfl) ds

theorem overwrite_flatMap {β : Type} (xs : List β) (f : β → List (Bool × String)) :
    overwrite value (xs.flatMap f) = xs.flatMap fun x ↦ overwrite value (f x) := by
  rw [overwrite, List.map_flatMap]
  rfl

theorem overwrite_ite {p : Prop} [Decidable p] (l : List (Bool × String)) :
    overwrite value (if p then l else []) = if p then overwrite value l else [] := by
  split_ifs
  · rfl
  · rfl

theorem datas_setField (name value : String) (t : Ptree) :
    (setField name value t).datas name = overwrite value (markFirst (t.datas name)) := by
  rw [Ptree.datas, Ptree.datas]
  change ((updFirst name (fun c ↦ c.withData value) t.children).filter fun c ↦ c.1 = name).map _ = _
  induction t.children with
  | nil => rfl
  | cons c cs ih =>
    obtain ⟨n, t⟩ := c
    rw [updFirst]
    by_cases hn : n = name
    · rw [if_pos hn, List.filter_cons_of_pos (by simpa using hn), List.filter_cons_of_pos (by simpa using hn),
        List.map_cons, List.map_cons, markFirst, overwrite, List.map_cons, List.map_map]
      change value :: _ = value :: _
      congr 1
      exact (List.map_id'' (fun _ ↦ rfl) _).symm
    · rw [if_neg hn, List.filter_cons_of_neg (by simpa using hn), List.filter_cons_of_neg (by simpa using hn), ih]

theorem isSpace_of_lt {c : Char} (h : 32 < c.val.toNat) : isSpace c = false := by
  rw [isSpace, Bool.or_eq_false_iff, decide_eq_false_iff_not]
  constructor
  · rintro rfl
    exact absurd h (by decide)
  · rw [Bool.and_eq_false_iff]
    right
    rw [decide_eq_false_iff_not]
    intro hle
    have hhigh : c.val.toNat ≤ 13 := UInt32.le_iff_toNat_le.mp hle
    omega

theorem isSpace_of_isDigit {c : Char} (h : c.isDigit = true) : isSpace c = false := by
  rw [Char.isDigit, Bool.and_eq_true, decide_eq_true_eq, decide_eq_true_eq] at h
  have hlow : 48 ≤ c.val.toNat := UInt32.le_iff_toNat_le.mp h.1
  apply isSpace_of_lt
  omega

theorem splitSign_of_isDigit {c : Char} {cs : List Char} (h : c.isDigit = true) :
    splitSign (c :: cs) = (false, c :: cs) := by
  unfold splitSign
  split
  · next heq =>
    obtain ⟨rfl, -⟩ := List.cons.inj heq
    exact absurd h (by decide)
  · next heq =>
    obtain ⟨rfl, -⟩ := List.cons.inj heq
    exact absurd h (by decide)
  · rfl

/-- A text of digits is the same number for a stream and for `atoi`. -/
theorem getUnsigned_of_digits {s : String} {n : ℕ} (hs : isUnsignedNumber s = true) (h : getUnsigned s = some n) :
    n = atoi s := by
  rw [isUnsignedNumber, Bool.and_eq_true, List.all_eq_true, decide_eq_true_eq] at hs
  obtain ⟨hdigits, hne⟩ := hs
  rw [getUnsigned] at h
  rw [atoi]
  obtain ⟨c, cs, hcs⟩ := List.exists_cons_of_ne_nil hne
  have hc : c.isDigit = true := hdigits c (by rw [hcs]; exact List.mem_cons_self)
  have htake : s.toList.takeWhile Char.isDigit = s.toList := List.takeWhile_eq_self_iff.mpr hdigits
  have hdrop : s.toList.dropWhile Char.isDigit = [] := List.dropWhile_eq_nil_iff.mpr hdigits
  rw [hcs, List.dropWhile_cons_of_neg (by rw [isSpace_of_isDigit hc]; decide), splitSign_of_isDigit hc, ← hcs] at h
  simp only [htake, hdrop, List.dropWhile_nil] at h
  rw [if_neg (by simp [hne])] at h
  simp only [Bool.false_eq_true, if_false] at h
  split_ifs at h
  exact (Option.some_inj.mp h).symm

/-- Where the reader finds the number, the writer finds it as well. -/
theorem hasId_of_readsId {b : Bool} (hr : readsId bound id t = true) (hw : hasId id t = .ok b) : b = true := by
  rw [readsId] at hr
  rw [hasId] at hw
  cases hattr : t.attr "id" with
  | none =>
    rw [hattr] at hr
    exact absurd hr Bool.false_ne_true
  | some s =>
    rw [hattr] at hr
    simp only [hattr] at hw
    simp only [Bool.and_eq_true, decide_eq_true_eq] at hr
    cases hn : getUnsigned s with
    | none =>
      simp only [hn] at hw
      cases hw
    | some n =>
      simp only [hn] at hw
      rw [← Except.ok.inj hw, getUnsigned_of_digits hr.1.1 hn]
      exact decide_eq_true hr.2

theorem attr_isSome_of_hasId {b : Bool} (hw : hasId id t = .ok b) : (t.attr "id").isSome := by
  rw [hasId] at hw
  cases hattr : t.attr "id" with
  | none =>
    simp only [hattr] at hw
    cases hw
  | some s => rfl

theorem readsId_congr (h : ∀ key, t'.attr key = t.attr key) : readsId bound id t' = readsId bound id t := by
  rw [readsId, readsId, h]

theorem readsCard_congr (h : ∀ key, t'.attr key = t.attr key) : readsCard env card t' = readsCard env card t := by
  rw [readsCard, readsCard, readsId_congr h, h]

theorem collect_visitChildren {α : Type} {F G : Ptree → List α} {reads : Ptree → Bool}
    {test : Ptree → Except Fault Bool} {body : Ptree → Except Fault Ptree}
    (hskip : ∀ t, test t = .ok false → reads t = false) (hreads : ∀ t t', body t = .ok t' → reads t' = reads t)
    (hbody : ∀ t t', body t = .ok t' → G t' = F t) (h : visitChildren name test body t = .ok t') :
    collect name (fun t ↦ if reads t then G t else []) t' = collect name (fun t ↦ if reads t then F t else []) t := by
  apply visit_flatMap (visitChildren_eq_ok h).2
  intro c t' hc
  rw [Visited] at hc
  by_cases hn : c.1 = name
  · rw [if_pos hn] at hc
    simp only [if_pos hn]
    rcases hc with ⟨-, hb⟩ | ⟨hfalse, rfl⟩
    · rw [hreads c.2 t' hb, hbody c.2 t' hb]
    · rw [hskip c.2 hfalse, if_neg Bool.false_ne_true, if_neg Bool.false_ne_true]
  · simp only [if_neg hn]

theorem readsId_eq_false (hw : hasId id t = .ok false) : readsId bound id t = false :=
  Bool.eq_false_iff.mpr fun hr ↦ Bool.false_ne_true (hasId_of_readsId hr hw)

theorem readsCard_eq_false (hw : hasId card t = .ok false) : readsCard env card t = false := by
  rw [readsCard, readsId_eq_false hw, Bool.false_and]

theorem collectCpus_nil (α : Type) (env : Env) (card cpu : ℕ) (root : Ptree) :
    collectCpus env card cpu (fun _ ↦ ([] : List α)) root = [] := by
  have hnil (f : Ptree → Bool) (name : String) (t : Ptree) :
      collect name (fun t ↦ if f t then ([] : List α) else []) t = [] := by
    simp [collect]
  simp only [collectCpus, hnil]

theorem collectCpus_forCpus {α : Type} {F G : Ptree → List α} {body : Ptree → Except Fault Ptree}
    (hattr : ∀ t t', body t = .ok t' → ∀ key, t'.attr key = t.attr key)
    (hbody : ∀ t t', body t = .ok t' → G t' = F t) (h : forCpus card cpu body root = .ok root') :
    collectCpus env card cpu G root' = collectCpus env card cpu F root := by
  refine collect_visitChildren (fun t ↦ readsCard_eq_false) ?_ ?_ h
  · intro t t' ht
    exact readsCard_congr (attr_visitChildren (by decide) ht)
  · intro t t' ht
    refine collect_visitChildren (fun t ↦ readsId_eq_false) ?_ hbody ht
    intro t t' ht
    exact readsId_congr (hattr t t' ht)

theorem cardOk_forCpus {body : Ptree → Except Fault Ptree} (h : forCpus card cpu body root = .ok root')
    (hok : ∀ c ∈ root.children, c.1 = "card" → CardOk c.2) : ∀ c ∈ root'.children, c.1 = "card" → CardOk c.2 := by
  intro c' hc' hname
  obtain ⟨c, hc, hn, hvisited⟩ := mem_of_visit (visitChildren_eq_ok h).2 hc'
  have hcard := hok c hc (hn.trans hname)
  rw [Visited, if_pos (hn.trans hname)] at hvisited
  rcases hvisited with ⟨-, hb⟩ | ⟨-, heq⟩
  · rw [CardOk, attr_visitChildren (by decide) hb, attr_visitChildren (by decide) hb]
    exact hcard
  · rw [heq]
    exact hcard

theorem haveId_forCpus {body : Ptree → Except Fault Ptree}
    (hattr : ∀ t t', body t = .ok t' → ∀ key, t'.attr key = t.attr key) (h : forCpus card cpu body root = .ok root') :
    ∀ c ∈ root'.children, c.1 = "card" → readsCard env card c.2 → HaveId "cpu" c.2.children := by
  intro c' hc' hname hreads
  obtain ⟨c, hc, hn, hvisited⟩ := mem_of_visit (visitChildren_eq_ok h).2 hc'
  rw [Visited, if_pos (hn.trans hname)] at hvisited
  rcases hvisited with ⟨-, hb⟩ | ⟨hfalse, heq⟩
  · intro d' hd' hcpu
    obtain ⟨d, hd, hdn, hdv⟩ := mem_of_visit (visitChildren_eq_ok hb).2 hd'
    rw [Visited, if_pos (hdn.trans hcpu)] at hdv
    rcases hdv with ⟨htest, hdb⟩ | ⟨htest, hdeq⟩
    · rw [hattr d.2 d'.2 hdb]
      exact attr_isSome_of_hasId htest
    · rw [hdeq]
      exact attr_isSome_of_hasId htest
  · rw [heq, readsCard_eq_false hfalse] at hreads
    exact absurd hreads Bool.false_ne_true

theorem getChild_global_forCpus {body : Ptree → Except Fault Ptree} (h : forCpus card cpu body root = .ok root') :
    root'.getChild "global" = root.getChild "global" := by
  have hne : "global" ≠ "card" := by decide
  have hfilter := visit_filter hne (visitChildren_eq_ok h).2
  rw [Ptree.getChild, Ptree.getChild, ← List.head?_filter, ← List.head?_filter, hfilter]

theorem collectBlk_setBlkDevs (hdev : extractBlockDevId (getBlockDevNameFromId dev) = some dev)
    (h : setBlkDevs dev name value t = .ok t') :
    collectBlk dev (fun c ↦ c.2.datas name) t' = overwrite value (collectBlk dev (markDev dev name) t) := by
  have hchildren := (visitChildren_eq_ok h).2
  simp only [collectBlk, collect]
  rw [overwrite_flatMap]
  apply visit_flatMap hchildren
  intro c u hc
  by_cases hn : c.1 = "block-devs"
  · simp only [if_pos hn]
    rcases visit_find? hchildren with ⟨hnone, hnone'⟩ | ⟨d, d', hd, hb, hd'⟩
    · rw [Ptree.getChild, Ptree.getChild, hnone, hnone']
      rfl
    · rw [Ptree.getChild, Ptree.getChild, hd, hd']
      simp only [Option.map_some]
      rw [overwrite_flatMap]
      apply visit_flatMap (visitChildren_eq_ok hb).2
      intro e v he
      simp only [overwrite_ite, markDev]
      rw [Visited] at he
      by_cases hname : e.1 = getBlockDevNameFromId dev
      · rw [if_pos hname] at he
        have hv : v = setField name value e.2 := by
          rcases he with ⟨-, hset⟩ | ⟨hfalse, -⟩
          · exact (Except.ok.inj hset).symm
          · cases hfalse
        rw [if_pos (by rw [hname]; exact hdev), if_pos (by rw [hname]; exact hdev), if_pos hname, hv, datas_setField]
      · rw [if_neg hname] at he
        rw [if_neg hname, he, overwrite_false]
  · simp only [if_neg hn]
    rfl

theorem attr_setField (h : Ptree.xmlattr ≠ name) (t : Ptree) (key : String) :
    (setField name value t).attr key = t.attr key := attr_updFirst h key

theorem xmlattr_ne_cpuField (f : CpuField) : Ptree.xmlattr ≠ f.dataField.name := by
  cases f <;> decide

theorem extractBlockDevId_name (hdev : dev < maxBlkDevs) :
    extractBlockDevId (getBlockDevNameFromId dev) = some dev := by
  have hall : ∀ d : Fin maxBlkDevs, extractBlockDevId (getBlockDevNameFromId d) = some d.val := by decide
  exact hall ⟨dev, hdev⟩

theorem getChild_global_updFirst {g : Ptree} {f : Ptree → Ptree} (hg : root.getChild "global" = some g) :
    (root.withChildren (updFirst "global" f root.children)).getChild "global" = some (f g) := by
  rw [Ptree.getChild] at hg ⊢
  change ((updFirst "global" f root.children).find? _).map Prod.snd = some (f g)
  generalize root.children = cs at hg ⊢
  induction cs with
  | nil => cases hg
  | cons c cs ih =>
    obtain ⟨n, t⟩ := c
    rw [updFirst]
    by_cases hn : n = "global"
    · rw [List.find?_cons_of_pos (by simpa using hn)] at hg
      obtain rfl := Option.some_inj.mp hg
      rw [if_pos hn, List.find?_cons_of_pos (by simpa using hn)]
      rfl
    · rw [List.find?_cons_of_neg (by simpa using hn)] at hg
      rw [if_neg hn, List.find?_cons_of_neg (by simpa using hn)]
      exact ih hg

theorem updFirst_ne_nil {f : Ptree → Ptree} {cs : List (String × Ptree)} (h : cs ≠ []) : updFirst name f cs ≠ [] := by
  cases cs with
  | nil => exact absurd rfl h
  | cons c cs =>
    rw [updFirst]
    split_ifs
    · exact List.cons_ne_nil _ _
    · exact List.cons_ne_nil _ _

theorem visit_ne_nil {test : Ptree → Except Fault Bool} {body : Ptree → Except Fault Ptree}
    {cs cs' : List (String × Ptree)} (h : cs ≠ []) (hcs : visit name test body cs = .ok cs') : cs' ≠ [] := by
  cases cs with
  | nil => exact absurd rfl h
  | cons c cs =>
    obtain ⟨t', rest, rfl, -⟩ := visit_cons hcs
    exact List.cons_ne_nil _ _

end Writing

/-! ## A file is written and read -/

section Files

variable {env : Env} {file file' root root' g : Ptree} {cfg : VcaConfig} {field : Field} {value : String}
  {card cpu : ℕ}

theorem loadVcaXml_eq_some (h : loadVcaXml file = some root) : root.children ≠ [] := by
  rw [loadVcaXml] at h
  obtain ⟨r, -, h⟩ := Option.bind_eq_some_iff.mp h
  split_ifs at h with hempty
  rw [← Option.some_inj.mp h]
  exact fun hnil ↦ hempty (by rw [hnil]; rfl)

theorem saveWith_eq_some {f : Ptree → Except Fault Ptree} (hf : ∀ r r', f r = .ok r' → r.children ≠ [] → r'.children ≠ [])
    (h : saveWith env f file = some file') :
    env.lock = true ∧ ∃ root root', loadVcaXml file = some root ∧ f root = .ok root' ∧
      loadVcaXml file' = some root' := by
  rw [saveWith] at h
  split_ifs at h with hlock
  refine ⟨by simpa using hlock, ?_⟩
  cases hload : loadVcaXml file with
  | none =>
    simp only [hload] at h
    cases h
  | some root =>
    simp only [hload] at h
    cases hroot : f root with
    | error e =>
      simp only [hroot] at h
      cases h
    | ok root' =>
      simp only [hroot, saveVcaXml] at h
      split_ifs at h with hwrite
      refine ⟨root, root', rfl, hroot, ?_⟩
      have hne : root'.children.isEmpty = false := by
        rw [List.isEmpty_eq_false_iff]
        exact hf root root' hroot (loadVcaXml_eq_some hload)
      rw [← Option.some_inj.mp h, loadVcaXml, Ptree.getChild]
      change (some root').bind _ = _
      rw [Option.bind_some, hne, if_neg Bool.false_ne_true]

theorem get_accepts (hlock : env.lock = true) (hload : loadVcaXml file = some root)
    (h : (getVcaConfigFromFile env file cfg).2 = true) :
    ∃ g, root.getChild "global" = some g ∧ ∀ c ∈ root.children, c.1 = "card" → CardOk c.2 := by
  rw [getVcaConfigFromFile, if_neg (by rw [hlock]; decide)] at h
  simp only [hload, parseGlobal] at h
  cases hg : root.getChild "global" with
  | none =>
    simp only [hg] at h
    exact absurd h Bool.false_ne_true
  | some g =>
    simp only [hg] at h
    exact ⟨g, rfl, parseCard_accepts h⟩

theorem get_eq (hlock : env.lock = true) (hload : loadVcaXml file = some root)
    (hg : root.getChild "global" = some g) (cfg : VcaConfig) :
    getVcaConfigFromFile env file cfg = parseCard env root.children (g.children.foldl parseGlobalChild cfg) := by
  rw [getVcaConfigFromFile, if_neg (by rw [hlock]; decide)]
  simp only [hload, parseGlobal, hg]

theorem get_global (hlock : env.lock = true) (hload : loadVcaXml file = some root)
    (hg : root.getChild "global" = some g) (f : GlobalField) (cfg : VcaConfig) :
    (getVcaConfigFromFile env file cfg).1.fields (.global f) =
      settle "" (cfg.fields (.global f)) (g.datas f.dataField.name) := by
  have hgives := (gives_global f g).comp (gives_parseCard_global env root.children rfl)
  rw [get_eq hlock hload hg, hgives cfg, List.append_nil]

theorem get_node (hnode : field.node = some (card, cpu)) (hlock : env.lock = true)
    (hload : loadVcaXml file = some root) (hg : root.getChild "global" = some g)
    (hok : ∀ c ∈ root.children, c.1 = "card" → CardOk c.2)
    (hid : ∀ c ∈ root.children, c.1 = "card" → readsCard env card c.2 → HaveId "cpu" c.2.children) (cfg : VcaConfig) :
    (getVcaConfigFromFile env file cfg).1.fields field =
      settle "" (cfg.fields field) (collectCpus env card cpu (fun t ↦ givenByCpu t field) root) := by
  have hglobal : ∀ f, field ≠ .global f := by
    rintro f rfl
    cases hnode
  have hgives := (gives_global_other hglobal g).comp (gives_parseCard hnode hok hid)
  rw [get_eq hlock hload hg, hgives cfg]
  rfl

/-- The bounds of the arrays. -/
def Field.Valid : Field → Prop
  | .global _ => True
  | .cpu i j _ => i < maxCards ∧ j < maxCpu
  | .blk i j dev _ => i < maxCards ∧ j < maxCpu ∧ dev < maxBlkDevs

instance Field.Valid.decidable : ∀ field : Field, Decidable field.Valid
  | .global _ => .isTrue trivial
  | .cpu _ _ _ => inferInstanceAs (Decidable (_ ∧ _))
  | .blk _ _ _ _ => inferInstanceAs (Decidable (_ ∧ _ ∧ _))

/-- The slots that the file has for a field. -/
def fileSlots (env : Env) (file : Ptree) (field : Field) : List (Bool × String) :=
  match loadVcaXml file with
  | none => []
  | some root => slots env root field

theorem get_save_node {body : Ptree → Except Fault Ptree} (sl : Ptree → List (Bool × String))
    (hnode : field.node = some (card, cpu)) (haccept : (getVcaConfigFromFile env file cfg).2 = true)
    (hattr : ∀ t t', body t = .ok t' → ∀ key, t'.attr key = t.attr key)
    (hbody : ∀ t t', body t = .ok t' → givenByCpu t' field = overwrite value (sl t))
    (hslots : ∀ root, slots env root field = collectCpus env card cpu sl root)
    (hsave : saveWith env (forCpus card cpu body) file = some file') :
    (getVcaConfigFromFile env file' cfg).1.fields field =
      settle "" (cfg.fields field) (overwrite value (fileSlots env file field)) := by
  have hne : ∀ r r', forCpus card cpu body r = .ok r' → r.children ≠ [] → r'.children ≠ [] :=
    fun r r' h hr ↦ visit_ne_nil hr (visitChildren_eq_ok h).2
  obtain ⟨hlock, root, root', hload, hroot, hnew⟩ := saveWith_eq_some hne hsave
  obtain ⟨g, hg, hok⟩ := get_accepts hlock hload haccept
  rw [get_node hnode hlock hnew ((getChild_global_forCpus hroot).trans hg) (cardOk_forCpus hroot hok)
    (haveId_forCpus hattr hroot), collectCpus_forCpus hattr hbody hroot, fileSlots, hload]
  simp only [hslots]
  congr 1
  simp only [collectCpus, collect, overwrite_flatMap, overwrite_ite]

theorem get_save (hvalid : field.Valid) (haccept : (getVcaConfigFromFile env file cfg).2 = true)
    (hsave : saveField env value file field = some file') :
    (getVcaConfigFromFile env file' cfg).1.fields field =
      settle "" (cfg.fields field) (overwrite value (fileSlots env file field)) := by
  cases field with
  | global f =>
    have hne : ∀ r r', setGlobalField f.dataField.name value r = .ok r' → r.children ≠ [] → r'.children ≠ [] := by
      intro r r' h hr
      rw [setGlobalField] at h
      split at h
      · cases h
      · rw [← Except.ok.inj h]
        exact updFirst_ne_nil hr
    obtain ⟨hlock, root, root', hload, hroot, hnew⟩ := saveWith_eq_some hne hsave
    obtain ⟨g, hg, -⟩ := get_accepts hlock hload haccept
    rw [setGlobalField, hg] at hroot
    have hroot' := Except.ok.inj hroot
    have hg' : root'.getChild "global" = some (setField f.dataField.name value g) := by
      rw [← hroot']
      exact getChild_global_updFirst hg
    rw [get_global hlock hnew hg', datas_setField, fileSlots, hload]
    simp only [slots, hg]
  | cpu i j f =>
    refine get_save_node (fun t ↦ if f = .blockDevs then [] else markFirst (t.datas f.dataField.name)) rfl haccept
      ?_ ?_ ?_ hsave
    · intro t t' ht key
      rw [← Except.ok.inj ht]
      exact attr_setField (xmlattr_ne_cpuField f) t key
    · intro t t' ht
      rw [givenByCpu, ← Except.ok.inj ht, datas_setField]
      split_ifs
      · rfl
      · rfl
    · intro root
      rw [slots]
      split_ifs
      · exact (collectCpus_nil _ env i j root).symm
      · rfl
  | blk i j dev f =>
    refine get_save_node (collectBlk dev (markDev dev f.dataField.name)) rfl haccept ?_ ?_ (fun _ ↦ rfl) hsave
    · intro t t' ht key
      exact attr_visitChildren (by decide) ht key
    · intro t t' ht
      exact collectBlk_setBlkDevs (extractBlockDevId_name hvalid.2.2) ht

/-- **The round trip.** What was written is read, if and only if the last slot that counts holds it. -/
theorem saved_field_is_read_iff (hvalid : field.Valid) (haccept : (getVcaConfigFromFile env file cfg).2 = true)
    (hsave : saveField env value file field = some file') :
    (getVcaConfigFromFile env file' cfg).1.fields field = value ↔
      Lasts "" value (cfg.fields field) (fileSlots env file field) := by
  rw [get_save hvalid haccept hsave]
  exact settle_overwrite_eq_iff

end Files

/-- An FPGA card is installed, and the files are accessible. -/
def fpgaEnv : Env where
  cardType _ := vcaFpga
  lock := true
  write := true

/-- A small configuration: a daemon script, and an image for the CPU of one card. -/
def smallFile (script image : String) : Ptree :=
  .node "" [(vcaConfigHeader, .node "" [
    ("global", .node "" [("default-daemon-script", .node script [])]),
    ("card", .node "" [
      (Ptree.xmlattr, .node "" [("type", .node "16" []), ("id", .node "0" [])]),
      ("cpu", .node "" [
        (Ptree.xmlattr, .node "" [("id", .node "0" [])]),
        ("os-image", .node image [])])])])]

theorem saved_image_is_read :
    saveField fpgaEnv "/b" (smallFile "" "/a") (.cpu 0 0 .imgPath) = some (smallFile "" "/b") ∧
      (getVcaConfigFromFile fpgaEnv (smallFile "" "/b") .init).1.fields (.cpu 0 0 .imgPath) = "/b" := by
  have haccept : (getVcaConfigFromFile fpgaEnv (smallFile "" "/a") .init).2 = true := by decide
  have hsave : saveField fpgaEnv "/b" (smallFile "" "/a") (.cpu 0 0 .imgPath) = some (smallFile "" "/b") := rfl
  exact ⟨hsave, (saved_field_is_read_iff (by decide) haccept hsave).mpr (by decide)⟩

/-- An empty value is written and not read: the field keeps what it has had. -/
theorem empty_value_not_read :
    ∃ file' cfg, getVcaConfigFromFile fpgaEnv (smallFile "/x" "") .init = (cfg, true) ∧
      saveField fpgaEnv "" (smallFile "/x" "") (.global .defaultDaemonScript) = some file' ∧
      (getVcaConfigFromFile fpgaEnv file' cfg).2 = true ∧
      (getVcaConfigFromFile fpgaEnv file' cfg).1.fields (.global .defaultDaemonScript) ≠ "" :=
  ⟨smallFile "" "", _, rfl, rfl, by decide, by decide⟩

end Vcass.Config
