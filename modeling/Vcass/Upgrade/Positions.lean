import Mathlib.Data.List.Nodup
import Mathlib.Data.List.TakeWhile
import Vcass.Upgrade.Combine

/-!
# The option tables, position by position

A position is a card, a CPU and an option, or a card, a CPU, a block device and an option of it. The tables are built
with accumulators that are not always begun anew. The list of the cards is kept from one configuration to the next,
so a card that a configuration does not have is taken from another one; and the devices that were found last are
kept as well, so a CPU without block devices has those of the CPU before.

In the tables, what is missing is `None`, and `combine_properties` goes through it as if it were a list. So the
tables are right only if every configuration has everything that a table has room for.
-/

namespace Vcass.Upgrade

open Vcass.Config Assoc

/-! ## The configurations -/

/-- The element with an id. -/
def elementAt (id : ℕ) (els : List Ptree) : Option Ptree := els.find? fun el ↦ idOf el = some (id : ℤ)

def cpuAt (root : Ptree) (card cpu : ℕ) : Option Ptree :=
  (elementAt card (findall root "card")).bind fun el ↦ elementAt cpu (findall el "cpu")

/-- Cards and CPUs that a table has room for, one element for each id. -/
structure Configuration (root : Ptree) : Prop where
  card_id : ∀ card ∈ findall root "card", ∃ k < numCards, idOf card = some (k : ℤ)
  card_nodup : ((findall root "card").map idOf).Nodup
  cpu_ne_nil : ∀ card ∈ findall root "card", findall card "cpu" ≠ []
  cpu_id : ∀ card ∈ findall root "card", ∀ cpu ∈ findall card "cpu", ∃ k < numCpus, idOf cpu = some (k : ℤ)
  cpu_nodup : ∀ card ∈ findall root "card", ((findall card "cpu").map idOf).Nodup

/-- The texts of the options of a CPU. -/
def optionTexts (cpu : Ptree) : List (String × Option String) := (subelements cpu).map fun c ↦ (c.1, text c.2)

/-- The devices of a CPU: those of its last `block-devs`. -/
def devsOf (cpu : Ptree) : BDevs := (findall cpu "block-devs").getLast?.map subelements

def ownOptions (root : Ptree) (card cpu : ℕ) : List (String × Option String) :=
  ((cpuAt root card cpu).map optionTexts).getD []

def ownDevs (root : Ptree) (card cpu : ℕ) : BDevs := (cpuAt root card cpu).bind devsOf

/-! ## The tables -/

/-- The tables of a CPU are there, and have the triples of texts that the configurations hold at its positions. -/
structure RightAt (order : List XmlConfig) (roots : XmlConfig → Ptree) (cards : XmlConfig → CardTable)
    (devs : XmlConfig → DevTable) (card cpu : ℕ) : Prop where
  options : ∃ result, combineOptions order cards card cpu = some result ∧
    ∀ k, result.get k = expected (fun c ↦ ownOptions (roots c) card cpu) k
  devices : ∃ result, combineDevs order devs card cpu = some result ∧
    ∀ k, getDev result k = expected (fun c ↦ devTexts ((ownDevs (roots c) card cpu).getD [])) k

/-- Everything terminates without an error, and the tables are right at every position. The configurations are
visited in one order when the tables are built and in another one when they are combined. -/
def TablesRight (visit order : List XmlConfig) (roots : XmlConfig → Ptree) : Prop :=
  ∃ cards devs, getCardCpuSpecificAttribs visit roots = some cards ∧ getBlockDevsAttribs visit roots = some devs ∧
    ∀ card < numCards, ∀ cpu < numCpus, RightAt order roots cards devs card cpu

/-! ## The condition -/

/-- The CPUs of a configuration, with their cards. -/
def visits (root : Ptree) : List (Ptree × Ptree) :=
  (findall root "card").flatMap fun card ↦ (findall card "cpu").map fun cpu ↦ (card, cpu)

def isAt (card cpu : ℕ) (v : Ptree × Ptree) : Bool := idOf v.1 = some (card : ℤ) && idOf v.2 = some (cpu : ℤ)

/-- The devices that were found last, after some CPUs. -/
def carry (b : BDevs) (vs : List (Ptree × Ptree)) : BDevs := vs.foldl (fun b v ↦ (devsOf v.2).or b) b

/-- The devices that were found last when a CPU has been visited. -/
def inForce (card cpu : ℕ) : BDevs → List (Ptree × Ptree) → BDevs
  | _, [] => none
  | b, v :: vs => if isAt card cpu v then (devsOf v.2).or b else inForce card cpu ((devsOf v.2).or b) vs

/-- The devices of a CPU, or those of the nearest CPU with devices that is visited before it. -/
def devsInForce (visit : List XmlConfig) (roots : XmlConfig → Ptree) (c : XmlConfig) (card cpu : ℕ) : BDevs :=
  inForce card cpu (carry none ((visit.takeWhile (· ≠ c)).flatMap fun c' ↦ visits (roots c'))) (visits (roots c))

/-- What the configurations have to be like. -/
structure Mergeable (visit order : List XmlConfig) (roots : XmlConfig → Ptree) : Prop where
  /-- Every CPU of every card is there, and is not empty. -/
  complete : ∀ c, ∀ card < numCards, ∀ cpu < numCpus, ∃ el, cpuAt (roots c) card cpu = some el ∧ subelements el ≠ []
  /-- The first CPU has block devices. -/
  first : ∀ v ∈ (visit.flatMap fun c ↦ visits (roots c)).head?, devsOf v.2 ≠ none
  /-- The devices that a CPU without any inherits have no text, and no option that no configuration has there. -/
  inherited : ∀ c, ∀ card < numCards, ∀ cpu < numCpus, ownDevs (roots c) card cpu = none →
    ∀ e ∈ devTexts ((devsInForce visit roots c card cpu).getD []),
      last (devTexts ((devsInForce visit roots c card cpu).getD [])) e.1 = some none ∧
        ∃ c', last (devTexts ((ownDevs (roots c') card cpu).getD [])) e.1 ≠ none
  /-- An option of a device is one of the device where it is visited last, too. -/
  agree : ∀ card < numCards, ∀ cpu < numCpus,
    Agree (order.flatMap fun c ↦ (devsInForce visit roots c card cpu).getD [])

/-! ## The options of the CPUs -/

section Options

variable {root card cpu el : Ptree} {cards cpus : List Ptree} {k j : ℕ}

theorem setItem_natCast {α : Type} {xs : List α} {x : α} (h : k < xs.length) :
    setItem xs (k : ℤ) x = some (xs.set k x) := by
  have hindex : pyIndex xs.length (k : ℤ) = some k := by
    rw [pyIndex, if_pos ⟨Int.natCast_nonneg k, Int.ofNat_lt.mpr h⟩, Int.toNat_natCast]
  rw [setItem, hindex]
  rfl

/-- What a list holds at an id; nothing is read at a negative one. -/
def rowAt {α : Type} (xs : List (Option α)) (i : ℤ) : Option α := if 0 ≤ i then xs.getD i.toNat none else none

@[simp] theorem rowAt_natCast {α : Type} (xs : List (Option α)) (k : ℕ) : rowAt xs (k : ℤ) = xs.getD k none := by
  rw [rowAt, if_pos (Int.natCast_nonneg k), Int.toNat_natCast]

theorem rowAt_set {α : Type} {xs : List (Option α)} {x : Option α} (h : k < xs.length) (i : ℤ) :
    rowAt (xs.set k x) i = if some (k : ℤ) = some i then x else rowAt xs i := by
  rw [rowAt, rowAt]
  by_cases hi : 0 ≤ i
  · obtain ⟨n, rfl⟩ := Int.eq_ofNat_of_zero_le hi
    rw [if_pos hi, if_pos hi, Int.toNat_natCast, List.getD_eq_getElem?_getD, List.getD_eq_getElem?_getD,
      List.getElem?_set]
    by_cases hkn : k = n
    · subst hkn
      rw [if_pos rfl, if_pos h, if_pos rfl]
      rfl
    · rw [if_neg hkn, if_neg fun h ↦ hkn (Int.ofNat_inj.mp (Option.some_inj.mp h))]
  · rw [if_neg hi, if_neg hi, if_neg]
    rintro heq
    rw [Option.some_inj] at heq
    omega

/-- The options of a CPU, as they are put into the table. -/
def cpuProps (cpu : Ptree) : Props := (subelements cpu).foldl (fun prop item ↦ prop.set item.1 (text item.2)) []

def propsOf (cpu : Ptree) : Option Props := if subelements cpu = [] then none else some (cpuProps cpu)

theorem cpuAttribs_eq {row : List (Option Props)} (hid : idOf cpu = some (k : ℤ)) (hk : k < row.length) :
    cpuAttribs row cpu = some (if subelements cpu = [] then row else row.set k (some (cpuProps cpu))) := by
  rw [cpuAttribs]
  split_ifs
  · rfl
  · rw [hid, Option.bind_some, setItem_natCast hk]
    rfl

/-- The row of a card. -/
def cardRow (card : Ptree) : List (Option Props) :=
  ((findall card "cpu").foldlM cpuAttribs (List.replicate numCpus none)).getD []

/-- **The row of a card**: it is built, and a CPU is in it unless it is empty. -/
theorem foldlM_cpuAttribs (hid : ∀ cpu ∈ findall card "cpu", ∃ k < numCpus, idOf cpu = some (k : ℤ))
    (hnodup : ((findall card "cpu").map idOf).Nodup) :
    (findall card "cpu").foldlM cpuAttribs (List.replicate numCpus none) = some (cardRow card) ∧
      ∀ j : ℕ, (cardRow card).getD j none = (elementAt j (findall card "cpu")).bind propsOf := by
  have hwrite : ∀ row : List (Option Props), row.length = numCpus → ∀ cpu ∈ findall card "cpu",
      ∃ row', cpuAttribs row cpu = some row' ∧ row'.length = numCpus ∧
        ∀ i, rowAt row' i = if idOf cpu = some i then (propsOf cpu).or (rowAt row i) else rowAt row i := by
    intro row hlen cpu hcpu
    obtain ⟨k, hk, hkid⟩ := hid cpu hcpu
    rw [← hlen] at hk
    refine ⟨_, cpuAttribs_eq hkid hk, ?_, fun i ↦ ?_⟩
    · split_ifs
      · exact hlen
      · rw [List.length_set, hlen]
    · rw [propsOf, hkid]
      by_cases hnil : subelements cpu = []
      · rw [if_pos hnil, if_pos hnil, Option.none_or, ite_self]
      · rw [if_neg hnil, if_neg hnil, rowAt_set hk]
        rfl
  obtain ⟨row, hrun, -, hread⟩ := exists_foldlM_nodup rowAt cpuAttribs idOf (fun cpu old ↦ (propsOf cpu).or old) hnodup
    hwrite List.length_replicate
  have hrow : cardRow card = row := by
    rw [cardRow, hrun]
    rfl
  refine ⟨hrow ▸ hrun, fun j ↦ ?_⟩
  have hj := hread j
  have hblank : rowAt (List.replicate numCpus (none : Option Props)) (j : ℤ) = none := by
    rw [rowAt_natCast, List.getD_eq_getElem?_getD, List.getElem?_replicate]
    split_ifs <;> rfl
  rw [rowAt_natCast, hblank] at hj
  rw [hrow, hj, elementAt]
  cases (findall card "cpu").find? fun el ↦ idOf el = some (j : ℤ) with
  | none => rfl
  | some el => exact Option.or_none

/-- The table after a configuration: a card that the configuration has is its own, and any other is kept. -/
theorem foldlM_cardAttribs (h : Configuration root) {table : CardTable} (hlen : table.length = numCards) :
    ∃ table', (findall root "card").foldlM cardAttribs table = some table' ∧ table'.length = numCards ∧
      ∀ k card, elementAt k (findall root "card") = some card → table'.getD k none = some (cardRow card) := by
  have hwrite : ∀ table : CardTable, table.length = numCards → ∀ card ∈ findall root "card",
      ∃ table', cardAttribs table card = some table' ∧ table'.length = numCards ∧
        ∀ i, rowAt table' i = if idOf card = some i then some (cardRow card) else rowAt table i := by
    intro table hlen card hcard
    obtain ⟨k, hk, hid⟩ := h.card_id card hcard
    rw [← hlen] at hk
    refine ⟨table.set k (some (cardRow card)), ?_, by rw [List.length_set, hlen], fun i ↦ ?_⟩
    · rw [cardAttribs, (foldlM_cpuAttribs (h.cpu_id card hcard) (h.cpu_nodup card hcard)).1, hid]
      exact setItem_natCast hk
    · rw [hid, rowAt_set hk]
  obtain ⟨table', hrun, hlen', hread⟩ := exists_foldlM_nodup rowAt cardAttribs idOf (fun card _ ↦ some (cardRow card))
    h.card_nodup hwrite hlen
  refine ⟨table', hrun, hlen', fun k card hk ↦ ?_⟩
  have hread := hread k
  rw [rowAt_natCast] at hread
  rw [elementAt] at hk
  rw [hread, hk]
  rfl

/-- **The options are read from every configuration**: a card that is there is its own, whatever the order. -/
theorem getCardCpuSpecificAttribs_spec {visit : List XmlConfig} {roots : XmlConfig → Ptree}
    (h : ∀ c, Configuration (roots c)) (hnodup : visit.Nodup) (hall : ∀ c, c ∈ visit) :
    ∃ cards, getCardCpuSpecificAttribs visit roots = some cards ∧
      ∀ c k card, elementAt k (findall (roots c) "card") = some card → (cards c).getD k none = some (cardRow card) := by
  have hrun : ∀ (visit : List XmlConfig) (table : CardTable) (attr : XmlConfig → CardTable), visit.Nodup →
      table.length = numCards → ∃ state, visit.foldlM (treeAttribs roots) (table, attr) = some state ∧
        (∀ c ∉ visit, state.2 c = attr c) ∧ ∀ c ∈ visit, ∀ k card,
          elementAt k (findall (roots c) "card") = some card → (state.2 c).getD k none = some (cardRow card) := by
    intro visit
    induction visit with
    | nil => exact fun table attr _ _ ↦ ⟨_, rfl, fun _ _ ↦ rfl, nofun⟩
    | cons c visit ih =>
      intro table attr hnodup hlen
      obtain ⟨hnotin, hnodup⟩ := List.nodup_cons.mp hnodup
      obtain ⟨table', htree, hlen', hread⟩ := foldlM_cardAttribs (h c) hlen
      have hstep : treeAttribs roots (table, attr) c = some (table', Function.update attr c table') := by
        rw [treeAttribs, htree]
        rfl
      obtain ⟨state, hrest, hkept, hown⟩ := ih table' (Function.update attr c table') hnodup hlen'
      refine ⟨state, by rw [List.foldlM_cons, hstep]; exact hrest, fun c' hc' ↦ ?_, fun c' hc' k card hcard ↦ ?_⟩
      · rw [hkept c' fun hmem ↦ hc' (List.mem_cons_of_mem c hmem), Function.update_of_ne]
        exact fun heq ↦ hc' (heq ▸ List.mem_cons_self)
      · rcases List.mem_cons.mp hc' with rfl | hc'
        · rw [hkept c' hnotin, Function.update_self]
          exact hread k card hcard
        · exact hown c' hc' k card hcard
  obtain ⟨state, hstate, -, hown⟩ := hrun visit (List.replicate numCards none) (fun _ ↦ []) hnodup List.length_replicate
  exact ⟨state.2, by rw [getCardCpuSpecificAttribs, hstate]; rfl, fun c ↦ hown c (hall c)⟩

theorem last_set {α : Type} (d : Dict α) (key : String) (val : α) (k : String) :
    last (d.set key val) k = if key = k then some val else last d k := by
  rw [Dict.set]
  by_cases hany : d.any (fun p ↦ p.1 = key) = true
  · rw [if_pos hany]
    obtain ⟨p, hp, hkey⟩ := List.any_eq_true.mp hany
    have hmap : ∀ d : Dict α, last (d.map fun p ↦ if p.1 = key then (key, val) else p) k =
        if key = k then (last d k).map fun _ ↦ val else last d k := by
      intro d
      induction d with
      | nil => simp
      | cons p d ih =>
        rw [List.map_cons, last_cons, last_cons, ih]
        by_cases hp : p.1 = key
        · rw [if_pos hp, hp]
          by_cases hk : key = k
          · rw [if_pos hk, if_pos hk, if_pos hk, if_pos hk]
            cases last d k <;> rfl
          · rw [if_neg hk, if_neg hk, if_neg hk]
            simp [hk]
        · rw [if_neg hp]
          by_cases hk : key = k
          · rw [if_pos hk, if_pos hk, if_neg fun h ↦ hp (h.trans hk.symm), Option.or_none, Option.or_none]
          · rw [if_neg hk, if_neg hk]
    rw [hmap]
    split_ifs with hk
    · obtain ⟨a, ha⟩ := Option.ne_none_iff_exists'.mp (last_ne_none_iff.mpr ⟨p, hp, (of_decide_eq_true hkey).trans hk⟩)
      rw [ha]
      rfl
    · rfl
  · rw [if_neg hany, last_concat]

theorem last_cpuProps (cpu : Ptree) (k : String) : last (cpuProps cpu) k = last (optionTexts cpu) k := by
  have hread := read_foldl_last (fun d k ↦ last d k) (fun (d : Props) e ↦ d.set e.1 e.2)
    (fun d e k ↦ last_set d e.1 e.2 k) ((subelements cpu).map fun c ↦ (c.1, text c.2)) [] k
  rw [List.foldl_map] at hread
  exact hread.trans Option.or_none

end Options

/-! ## The block devices of the CPUs -/

section Devices

variable {root : Ptree} {roots : XmlConfig → Ptree} {v : Ptree × Ptree} {vs ws : List (Ptree × Ptree)} {b : BDevs}
variable {card cpu : ℕ}

theorem foldl_blockDevs (b : BDevs) (els : List Ptree) :
    els.foldl (fun _ blockDev ↦ some (subelements blockDev)) b = (els.getLast?.map subelements).or b := by
  induction els using List.reverseRecOn with
  | nil => rfl
  | append_singleton els el ih => rw [List.foldl_concat, List.getLast?_concat]; rfl

/-- A table with room for all CPUs. -/
def Shape (table : DevTable) : Prop := table.length = numCards ∧ ∀ k < numCards, (table.getD k []).length = numCpus

def devAt (table : DevTable) (card cpu : ℕ) : BDevs := (table.getD card []).getD cpu none

theorem cpuBlockDevs_eq {table : DevTable} (hshape : Shape table) (hcard : card < numCards) (hcpu : cpu < numCpus)
    (hid : idOf v.1 = some (card : ℤ)) (hid' : idOf v.2 = some (cpu : ℤ)) :
    cpuBlockDevs v.1 (b, table) v.2 = ((devsOf v.2).or b).map fun devs ↦
      (some devs, table.set card ((table.getD card []).set cpu (some devs))) := by
  have hindex : pyIndex numCards (card : ℤ) = some card := by
    rw [pyIndex, if_pos ⟨Int.natCast_nonneg _, Int.ofNat_lt.mpr hcard⟩, Int.toNat_natCast]
  have hrow : cpu < (table.getD card []).length := by rw [hshape.2 card hcard]; exact hcpu
  have hfound : (findall v.2 "block-devs").foldl (fun _ blockDev ↦ some (subelements blockDev)) b =
      (devsOf v.2).or b := foldl_blockDevs b _
  rw [cpuBlockDevs, hfound]
  cases (devsOf v.2).or b with
  | none => rfl
  | some devs =>
    simp only [Option.bind_eq_bind, Option.bind_some, hid, hid', hindex, setItem_natCast hrow]
    rfl

theorem shape_set {table : DevTable} (hshape : Shape table) (hcard : card < numCards) (devs : BDevs) :
    Shape (table.set card ((table.getD card []).set cpu devs)) := by
  refine ⟨by rw [List.length_set, hshape.1], fun k hk ↦ ?_⟩
  have hlt : card < table.length := by rw [hshape.1]; exact hcard
  rw [List.getD_eq_getElem?_getD, List.getElem?_set]
  split_ifs with heq
  · rw [Option.getD_some, List.length_set, hshape.2 card hcard]
  · rw [← List.getD_eq_getElem?_getD, hshape.2 k hk]

theorem devAt_set {table : DevTable} (hshape : Shape table) (hcard : card < numCards) (hcpu : cpu < numCpus)
    (devs : BDevs) (k j : ℕ) : devAt (table.set card ((table.getD card []).set cpu devs)) k j =
      if card = k ∧ cpu = j then devs else devAt table k j := by
  have hlt : card < table.length := by rw [hshape.1]; exact hcard
  have hlt' : cpu < (table.getD card []).length := by rw [hshape.2 card hcard]; exact hcpu
  have hget : ∀ row : List BDevs, (table.set card row).getD k [] = if card = k then row else table.getD k [] := by
    intro row
    rw [List.getD_eq_getElem?_getD, List.getElem?_set, List.getD_eq_getElem?_getD]
    split_ifs
    · rfl
    · rfl
  rw [devAt, hget, devAt]
  by_cases hk : card = k
  · subst hk
    rw [if_pos rfl, List.getD_eq_getElem?_getD, List.getElem?_set, List.getD_eq_getElem?_getD]
    by_cases hj : cpu = j
    · rw [List.getD_eq_getElem?_getD] at hlt'
      rw [if_pos hj, if_pos hlt', if_pos ⟨rfl, hj⟩]
      rfl
    · rw [if_neg hj, if_neg fun h ↦ hj h.2, List.getD_eq_getElem?_getD]
  · rw [if_neg hk, if_neg fun h ↦ hk h.1]

/-- The ids of the CPUs are in the table, and no two CPUs have the same. -/
structure Ids (vs : List (Ptree × Ptree)) : Prop where
  id : ∀ v ∈ vs, ∃ k < numCards, ∃ j < numCpus, idOf v.1 = some (k : ℤ) ∧ idOf v.2 = some (j : ℤ)
  nodup : (vs.map fun v ↦ (idOf v.1, idOf v.2)).Nodup

theorem isAt_iff : isAt card cpu v = true ↔ idOf v.1 = some (card : ℤ) ∧ idOf v.2 = some (cpu : ℤ) := by
  rw [isAt, Bool.and_eq_true, decide_eq_true_eq, decide_eq_true_eq]

theorem inForce_eq_none (h : ∀ v ∈ vs, isAt card cpu v = false) : inForce card cpu b vs = none := by
  induction vs generalizing b with
  | nil => rfl
  | cons v vs ih =>
    rw [inForce, h v List.mem_cons_self, if_neg Bool.false_ne_true]
    exact ih fun w hw ↦ h w (List.mem_cons_of_mem v hw)

/-- **The CPUs of a configuration**: the loop goes through if the first one finds devices, and a CPU gets the devices
that are in force when it is visited. -/
theorem foldlM_cpuBlockDevs (hids : Ids vs) {table : DevTable} (hshape : Shape table) :
    (vs.foldlM (fun s v ↦ cpuBlockDevs v.1 s v.2) (b, table) ≠ none ↔ ∀ v ∈ vs.head?, (devsOf v.2).or b ≠ none) ∧
      ∀ s, vs.foldlM (fun s v ↦ cpuBlockDevs v.1 s v.2) (b, table) = some s → s.1 = carry b vs ∧
        ∀ k j, devAt s.2 k j = (inForce k j b vs).or (devAt table k j) := by
  induction vs generalizing b table with
  | nil =>
    refine ⟨iff_of_true nofun nofun, fun s h ↦ ?_⟩
    obtain rfl : (b, table) = s := by simpa using h
    exact ⟨rfl, fun _ _ ↦ rfl⟩
  | cons v vs ih =>
    obtain ⟨card, hcard, cpu, hcpu, hid, hid'⟩ := hids.id v List.mem_cons_self
    have hnodup := List.nodup_cons.mp hids.nodup
    rw [List.foldlM_cons, cpuBlockDevs_eq hshape hcard hcpu hid hid']
    cases hdevs : (devsOf v.2).or b with
    | none =>
      refine ⟨iff_of_false (not_not_intro rfl) fun h ↦ h v rfl hdevs, fun s h ↦ ?_⟩
      simp at h
    | some devs =>
      obtain ⟨hgoes, hrun⟩ := ih (b := some devs) ⟨fun w hw ↦ hids.id w (List.mem_cons_of_mem v hw), hnodup.2⟩
        (@shape_set _ cpu _ hshape hcard (some devs))
      rw [Option.map_some, Option.bind_eq_bind, Option.bind_some]
      constructor
      · refine iff_of_true (hgoes.mpr fun w _ ↦ ?_) fun w hw ↦ ?_
        · cases devsOf w.2 <;> exact Option.some_ne_none _
        · rw [← Option.some_inj.mp hw, hdevs]
          exact Option.some_ne_none devs
      · intro s hs
        obtain ⟨hcarry, hread⟩ := hrun s hs
        refine ⟨by rw [hcarry, carry, carry, List.foldl_cons, hdevs], fun k j ↦ ?_⟩
        rw [hread, devAt_set hshape hcard hcpu, inForce, hdevs]
        by_cases hat : isAt k j v = true
        · -- it is the only CPU with these ids
          obtain ⟨hk, hj⟩ := isAt_iff.mp hat
          have hkj : card = k ∧ cpu = j :=
            ⟨Int.ofNat_inj.mp (Option.some_inj.mp (hid.symm.trans hk)),
              Int.ofNat_inj.mp (Option.some_inj.mp (hid'.symm.trans hj))⟩
          have hlater : inForce k j (some devs) vs = none := by
            apply inForce_eq_none
            intro w hw
            rw [← Bool.not_eq_true, isAt_iff]
            rintro ⟨hwk, hwj⟩
            exact hnodup.1 (List.mem_map.mpr ⟨w, hw, Prod.ext (hwk.trans hk.symm) (hwj.trans hj.symm)⟩)
          rw [if_pos hat, if_pos hkj, hlater]
          rfl
        · rw [if_neg hat, if_neg]
          rintro ⟨rfl, rfl⟩
          exact hat (isAt_iff.mpr ⟨hid, hid'⟩)

theorem foldlM_cardBlockDevs (cards : List Ptree) (s : BDevs × DevTable) : cards.foldlM cardBlockDevs s =
    (cards.flatMap fun card ↦ (findall card "cpu").map fun cpu ↦ (card, cpu)).foldlM
      (fun s v ↦ cpuBlockDevs v.1 s v.2) s := by
  induction cards generalizing s with
  | nil => rfl
  | cons card cards ih =>
    rw [List.foldlM_cons, List.flatMap_cons, List.foldlM_append, List.foldlM_map]
    congr 1
    funext s
    exact ih s

theorem carry_ne_none (h : b ≠ none) : carry b vs ≠ none := by
  induction vs generalizing b with
  | nil => exact h
  | cons v vs ih =>
    rw [carry, List.foldl_cons]
    apply ih
    cases devsOf v.2 with
    | none => exact h
    | some devs => exact Option.some_ne_none devs

theorem carry_append : carry b (vs ++ ws) = carry (carry b vs) ws := List.foldl_append

/-- Once devices have been found, the loop goes through. -/
theorem head_append_iff : (∀ v ∈ (vs ++ ws).head?, (devsOf v.2).or b ≠ none) ↔
    (∀ v ∈ vs.head?, (devsOf v.2).or b ≠ none) ∧ ∀ v ∈ ws.head?, (devsOf v.2).or (carry b vs) ≠ none := by
  cases vs with
  | nil => exact (and_iff_right nofun).symm
  | cons v vs =>
    refine (and_iff_left_of_imp fun h w _ ↦ ?_).symm
    have hcarry : carry b (v :: vs) ≠ none := @carry_ne_none vs _ (h v rfl)
    cases devsOf w.2 with
    | none => exact hcarry
    | some devs => exact Option.some_ne_none devs

theorem mem_visits {v : Ptree × Ptree} : v ∈ visits root ↔ v.1 ∈ findall root "card" ∧ v.2 ∈ findall v.1 "cpu" := by
  constructor
  · intro h
    obtain ⟨card, hcard, h⟩ := List.mem_flatMap.mp h
    obtain ⟨cpu, hcpu, rfl⟩ := List.mem_map.mp h
    exact ⟨hcard, hcpu⟩
  · rintro ⟨hcard, hcpu⟩
    exact List.mem_flatMap.mpr ⟨v.1, hcard, List.mem_map.mpr ⟨v.2, hcpu, rfl⟩⟩

theorem Configuration.ids (h : Configuration root) : Ids (visits root) where
  id v hv := by
    obtain ⟨hcard, hcpu⟩ := mem_visits.mp hv
    obtain ⟨k, hk, hkid⟩ := h.card_id v.1 hcard
    obtain ⟨j, hj, hjid⟩ := h.cpu_id v.1 hcard v.2 hcpu
    exact ⟨k, hk, j, hj, hkid, hjid⟩
  nodup := by
    rw [visits, List.map_flatMap, List.nodup_flatMap]
    constructor
    · intro card hcard
      rw [List.map_map]
      have hpair : (findall card "cpu").map ((fun v : Ptree × Ptree ↦ (idOf v.1, idOf v.2)) ∘ fun cpu ↦ (card, cpu)) =
          ((findall card "cpu").map idOf).map fun i ↦ (idOf card, i) := by
        rw [List.map_map]
        rfl
      rw [hpair]
      exact (h.cpu_nodup card hcard).map fun i i' heq ↦ congrArg Prod.snd heq
    · refine (List.pairwise_map.mp h.card_nodup).imp fun {card card'} hne ↦ ?_
      apply List.disjoint_left.mpr
      intro x hx hx'
      obtain ⟨v, hv, rfl⟩ := List.mem_map.mp hx
      obtain ⟨v', hv', heq⟩ := List.mem_map.mp hx'
      obtain ⟨cpu, -, rfl⟩ := List.mem_map.mp hv
      obtain ⟨cpu', -, rfl⟩ := List.mem_map.mp hv'
      exact hne (congrArg Prod.fst heq).symm

/-- The table of a configuration, before a CPU is visited. -/
def blankTable : DevTable := List.replicate numCards (List.replicate numCpus none)

theorem shape_blank : Shape blankTable := by
  refine ⟨List.length_replicate, fun k hk ↦ ?_⟩
  rw [blankTable, List.getD_eq_getElem?_getD, List.getElem?_replicate, if_pos hk, Option.getD_some,
    List.length_replicate]

theorem devAt_blank (k j : ℕ) : devAt blankTable k j = none := by
  have hrow : blankTable.getD k [] = if k < numCards then List.replicate numCpus none else [] := by
    rw [blankTable, List.getD_eq_getElem?_getD, List.getElem?_replicate]
    split_ifs <;> rfl
  rw [devAt, hrow]
  split_ifs
  · rw [List.getD_eq_getElem?_getD, List.getElem?_replicate]
    split_ifs <;> rfl
  · rfl

theorem treeBlockDevs_eq (b : BDevs) (mapped : XmlConfig → DevTable) (c : XmlConfig) :
    treeBlockDevs roots (b, mapped) c =
      ((visits (roots c)).foldlM (fun s v ↦ cpuBlockDevs v.1 s v.2) (b, blankTable)).map
        fun s ↦ (s.1, Function.update mapped c s.2) := by
  rw [treeBlockDevs, foldlM_cardBlockDevs, Option.map_eq_bind]
  rfl

/-- **All configurations**: the devices that were found last are passed from each to the next. -/
theorem foldlM_treeBlockDevs (h : ∀ c, Configuration (roots c)) {visit : List XmlConfig} (hnodup : visit.Nodup)
    (mapped : XmlConfig → DevTable) :
    (visit.foldlM (treeBlockDevs roots) (b, mapped) ≠ none ↔
      ∀ v ∈ (visit.flatMap fun c ↦ visits (roots c)).head?, (devsOf v.2).or b ≠ none) ∧
    ∀ s, visit.foldlM (treeBlockDevs roots) (b, mapped) = some s → (∀ c ∉ visit, s.2 c = mapped c) ∧
      ∀ c ∈ visit, ∀ k j, devAt (s.2 c) k j = inForce k j
        (carry b ((visit.takeWhile (· ≠ c)).flatMap fun c' ↦ visits (roots c'))) (visits (roots c)) := by
  induction visit generalizing b mapped with
  | nil =>
    refine ⟨iff_of_true nofun nofun, fun s hs ↦ ?_⟩
    obtain rfl : (b, mapped) = s := by simpa using hs
    exact ⟨fun _ _ ↦ rfl, nofun⟩
  | cons c visit ih =>
    obtain ⟨hnotin, hnodup⟩ := List.nodup_cons.mp hnodup
    obtain ⟨hgoes, hrun⟩ := foldlM_cpuBlockDevs (b := b) (h c).ids shape_blank
    rw [List.flatMap_cons, head_append_iff, ← hgoes, List.foldlM_cons, treeBlockDevs_eq]
    cases htree : (visits (roots c)).foldlM (fun s v ↦ cpuBlockDevs v.1 s v.2) (b, blankTable) with
    | none => exact ⟨iff_of_false (not_not_intro rfl) fun hne ↦ hne.1 rfl, fun s hs ↦ by simp at hs⟩
    | some s =>
      obtain ⟨hcarry, hread⟩ := hrun s htree
      obtain ⟨hrest, hown⟩ := ih (b := s.1) hnodup (Function.update mapped c s.2)
      rw [Option.map_some, Option.bind_eq_bind, Option.bind_some, hrest, hcarry]
      refine ⟨(and_iff_right (Option.some_ne_none s)).symm, fun s' hs' ↦ ?_⟩
      rw [← hcarry] at hs'
      obtain ⟨hkept, hown⟩ := hown s' hs'
      refine ⟨fun c' hc' ↦ ?_, fun c' hc' k j ↦ ?_⟩
      · rw [hkept c' fun hmem ↦ hc' (List.mem_cons_of_mem c hmem), Function.update_of_ne]
        exact fun heq ↦ hc' (heq ▸ List.mem_cons_self)
      · by_cases heq : c = c'
        · subst heq
          rw [hkept c hnotin, Function.update_self, hread, devAt_blank, Option.or_none,
            List.takeWhile_cons_of_neg (by simp)]
          rfl
        · have hmem := (List.mem_cons.mp hc').resolve_left (Ne.symm heq)
          rw [hown c' hmem, List.takeWhile_cons_of_pos (by simpa using heq), List.flatMap_cons, carry_append, hcarry]

theorem getBlockDevsAttribs_spec (h : ∀ c, Configuration (roots c)) {visit : List XmlConfig} (hnodup : visit.Nodup)
    (hall : ∀ c, c ∈ visit) :
    (getBlockDevsAttribs visit roots ≠ none ↔
      ∀ v ∈ (visit.flatMap fun c ↦ visits (roots c)).head?, devsOf v.2 ≠ none) ∧
    ∀ devs, getBlockDevsAttribs visit roots = some devs → ∀ c k j,
      devAt (devs c) k j = devsInForce visit roots c k j := by
  obtain ⟨hgoes, hrun⟩ := foldlM_treeBlockDevs (b := none) h hnodup fun _ ↦ []
  constructor
  · rw [getBlockDevsAttribs, Ne, Option.map_eq_none_iff]
    simpa only [Option.or_none] using hgoes
  · intro devs hdevs c k j
    obtain ⟨s, hs, rfl⟩ := Option.map_eq_some_iff.mp hdevs
    exact (hrun s hs).2 c (hall c) k j

end Devices

/-! ## Positions -/

section Positions

variable {root el : Ptree} {roots : XmlConfig → Ptree} {visit order : List XmlConfig} {v : Ptree × Ptree}
variable {vs : List (Ptree × Ptree)} {els : List Ptree} {b : BDevs} {card cpu k : ℕ} {c : XmlConfig}

theorem elementAt_eq (hnodup : (els.map idOf).Nodup) (hel : el ∈ els) (hid : idOf el = some (k : ℤ)) :
    elementAt k els = some el := by
  induction els with
  | nil => exact absurd hel List.not_mem_nil
  | cons x els ih =>
    obtain ⟨hnotin, hnodup⟩ := List.nodup_cons.mp hnodup
    rcases List.mem_cons.mp hel with rfl | hel
    · exact List.find?_cons_of_pos (by simpa using hid)
    · have hne : idOf x ≠ some (k : ℤ) := fun hx ↦ hnotin (List.mem_map.mpr ⟨el, hel, hid.trans hx.symm⟩)
      rw [elementAt, List.find?_cons_of_neg (by simpa using hne)]
      exact ih hnodup hel

theorem of_elementAt (h : elementAt k els = some el) : el ∈ els ∧ idOf el = some (k : ℤ) :=
  by
  rw [elementAt] at h
  exact ⟨List.mem_of_find?_eq_some h, by simpa using List.find?_some h⟩

theorem cpuAt_eq (h : Configuration root) (hv : v ∈ visits root) (hat : isAt card cpu v = true) :
    cpuAt root card cpu = some v.2 := by
  obtain ⟨hcard, hcpu⟩ := mem_visits.mp hv
  obtain ⟨hk, hj⟩ := isAt_iff.mp hat
  rw [cpuAt, elementAt_eq h.card_nodup hcard hk]
  exact elementAt_eq (h.cpu_nodup v.1 hcard) hcpu hj

theorem exists_visit (h : cpuAt root card cpu = some el) : ∃ v ∈ visits root, isAt card cpu v = true ∧ v.2 = el := by
  obtain ⟨cardEl, hcard, hcpu⟩ := Option.bind_eq_some_iff.mp h
  obtain ⟨hmem, hk⟩ := of_elementAt hcard
  obtain ⟨hmem', hj⟩ := of_elementAt hcpu
  exact ⟨(cardEl, el), mem_visits.mpr ⟨hmem, hmem'⟩, isAt_iff.mpr ⟨hk, hj⟩, rfl⟩

theorem exists_of_inForce (h : inForce card cpu b vs ≠ none) : ∃ v ∈ vs, isAt card cpu v = true := by
  by_contra hno
  apply h
  apply inForce_eq_none
  intro v hv
  rw [← Bool.not_eq_true]
  exact fun hat ↦ hno ⟨v, hv, hat⟩

/-- The own devices of a CPU are in force. -/
theorem inForce_eq (hids : Ids vs) (hv : v ∈ vs) (hat : isAt card cpu v = true) :
    ∃ b', inForce card cpu b vs = (devsOf v.2).or b' := by
  induction vs generalizing b with
  | nil => exact absurd hv List.not_mem_nil
  | cons w vs ih =>
    have hnodup := List.nodup_cons.mp hids.nodup
    rcases List.mem_cons.mp hv with rfl | hv
    · rw [inForce, if_pos hat]
      exact ⟨b, rfl⟩
    · have hw : ¬ isAt card cpu w = true := by
        intro hw
        obtain ⟨hk, hj⟩ := isAt_iff.mp hw
        obtain ⟨hk', hj'⟩ := isAt_iff.mp hat
        exact hnodup.1 (List.mem_map.mpr ⟨v, hv, Prod.ext (hk'.trans hk.symm) (hj'.trans hj.symm)⟩)
      rw [inForce, if_neg hw]
      exact ih ⟨fun x hx ↦ hids.id x (List.mem_cons_of_mem w hx), hnodup.2⟩ hv

/-- Once devices have been found, some are in force at every CPU. -/
theorem inForce_ne_none (hfirst : ∀ v ∈ vs.head?, (devsOf v.2).or b ≠ none) (hv : v ∈ vs)
    (hat : isAt card cpu v = true) : inForce card cpu b vs ≠ none := by
  induction vs generalizing b with
  | nil => exact absurd hv List.not_mem_nil
  | cons w vs ih =>
    have hw := hfirst w rfl
    rw [inForce]
    split_ifs with hat'
    · exact hw
    · rcases List.mem_cons.mp hv with rfl | hv
      · exact absurd hat hat'
      · refine ih (fun x _ ↦ ?_) hv
        cases devsOf x.2 with
        | none => exact hw
        | some devs => exact Option.some_ne_none devs

theorem devsInForce_of_own (h : Configuration (roots c)) {devs : List (String × Ptree)}
    (hown : ownDevs (roots c) card cpu = some devs) : devsInForce visit roots c card cpu = some devs := by
  obtain ⟨el, hel, hdevs⟩ := Option.bind_eq_some_iff.mp hown
  obtain ⟨v, hv, hat, rfl⟩ := exists_visit hel
  obtain ⟨b', hb'⟩ := inForce_eq h.ids hv hat
  rw [devsInForce, hb', hdevs]
  rfl

theorem devsInForce_ne_none (hfirst : ∀ v ∈ (visit.flatMap fun c ↦ visits (roots c)).head?, devsOf v.2 ≠ none)
    (hc : c ∈ visit) (hel : cpuAt (roots c) card cpu = some el) : devsInForce visit roots c card cpu ≠ none := by
  obtain ⟨v, hv, hat, -⟩ := exists_visit hel
  refine inForce_ne_none ?_ hv hat
  -- the configuration comes behind those before it
  have hsplit : visit = visit.takeWhile (· ≠ c) ++ visit.dropWhile (· ≠ c) := List.takeWhile_append_dropWhile.symm
  have hdrop : ∃ rest, visit.dropWhile (· ≠ c) = c :: rest := by
    cases hdrop : visit.dropWhile (· ≠ c) with
    | nil =>
      rw [List.dropWhile_eq_nil_iff] at hdrop
      exact absurd (hdrop c hc) (by simp)
    | cons x rest =>
      have hx := List.head?_dropWhile_not (fun x ↦ decide (x ≠ c)) visit
      rw [hdrop] at hx
      exact ⟨rest, by simpa using hx⟩
  obtain ⟨rest, hrest⟩ := hdrop
  rw [hsplit, hrest, List.flatMap_append, List.flatMap_cons] at hfirst
  have hhead := head_append_iff (b := none).mp (by simpa only [Option.or_none] using hfirst)
  exact (head_append_iff.mp hhead.2).1

theorem expected_congr {κ : Type} [DecidableEq κ] {texts texts' : XmlConfig → List (κ × Option String)} {p : κ}
    (h : ∀ c, last (texts c) p = last (texts' c) p) : expected texts p = expected texts' p := by
  simp only [expected, triple, h]

/-- Devices without a text and without an option of their own make no difference. -/
theorem expected_devs_iff (h : ∀ c, Configuration (roots c)) :
    (∀ p, expected (fun c ↦ devTexts ((devsInForce visit roots c card cpu).getD [])) p =
      expected (fun c ↦ devTexts ((ownDevs (roots c) card cpu).getD [])) p) ↔
    ∀ c, ownDevs (roots c) card cpu = none →
      ∀ e ∈ devTexts ((devsInForce visit roots c card cpu).getD []),
        last (devTexts ((devsInForce visit roots c card cpu).getD [])) e.1 = some none ∧
          ∃ c', last (devTexts ((ownDevs (roots c') card cpu).getD [])) e.1 ≠ none := by
  constructor
  · intro heq c hown e he
    have hlast : last (devTexts ((devsInForce visit roots c card cpu).getD [])) e.1 ≠ none :=
      last_ne_none_iff.mpr ⟨e, he, rfl⟩
    have hpos := heq e.1
    rw [@expected_eq_some _ _ (fun c ↦ devTexts ((devsInForce visit roots c card cpu).getD [])) e.1 c hlast] at hpos
    have hsome : ∃ c', last (devTexts ((ownDevs (roots c') card cpu).getD [])) e.1 ≠ none := by
      by_contra hno
      rw [not_exists] at hno
      rw [expected_eq_none_iff.mpr fun c' ↦ not_not.mp (hno c')] at hpos
      cases hpos
    obtain ⟨c', hc'⟩ := hsome
    rw [@expected_eq_some _ _ (fun c ↦ devTexts ((ownDevs (roots c) card cpu).getD [])) e.1 c' hc',
      Option.some_inj] at hpos
    have htext := congrArg (fun v ↦ v.at c) hpos
    rw [at_triple, at_triple, hown] at htext
    obtain ⟨t, ht⟩ := Option.ne_none_iff_exists'.mp hlast
    rw [ht] at htext
    exact ⟨ht.trans (congrArg some htext), c', hc'⟩
  · intro hinherit p
    have hsame : ∀ c, ownDevs (roots c) card cpu ≠ none →
        devsInForce visit roots c card cpu = ownDevs (roots c) card cpu := by
      intro c hc
      obtain ⟨devs, hdevs⟩ := Option.ne_none_iff_exists'.mp hc
      rw [hdevs, devsInForce_of_own (h c) hdevs]
    by_cases hex : ∃ c', last (devTexts ((ownDevs (roots c') card cpu).getD [])) p ≠ none
    · obtain ⟨c', hc'⟩ := hex
      have hown : ownDevs (roots c') card cpu ≠ none := fun hnone ↦ hc' (by rw [hnone]; rfl)
      rw [@expected_eq_some _ _ (fun c ↦ devTexts ((ownDevs (roots c) card cpu).getD [])) p c' hc',
        @expected_eq_some _ _ (fun c ↦ devTexts ((devsInForce visit roots c card cpu).getD [])) p c'
          (by rwa [hsame c' hown])]
      refine congrArg some (Values.ext_at fun c ↦ ?_)
      rw [at_triple, at_triple]
      by_cases hc : ownDevs (roots c) card cpu = none
      · cases hlast : last (devTexts ((devsInForce visit roots c card cpu).getD [])) p with
        | none => rw [hc]; rfl
        | some t =>
          have hnone := (hinherit c hc _ (mem_of_last hlast)).1
          rw [hlast, Option.some_inj] at hnone
          rw [hc, hnone]
          rfl
      · rw [hsame c hc]
    · rw [not_exists] at hex
      rw [expected_eq_none_iff.mpr fun c ↦ not_not.mp (hex c), expected_eq_none_iff]
      intro c
      by_contra hlast
      obtain ⟨e, he, rfl⟩ := last_ne_none_iff.mp hlast
      by_cases hc : ownDevs (roots c) card cpu = none
      · obtain ⟨c', hc'⟩ := (hinherit c hc e he).2
        exact hex c' hc'
      · rw [hsame c hc] at hlast
        exact hex c hlast

theorem place_eq {cards : XmlConfig → CardTable} (h : Configuration (roots c))
    (hcards : ∀ k card, elementAt k (findall (roots c) "card") = some card →
      (cards c).getD k none = some (cardRow card))
    (hel : cpuAt (roots c) card cpu = some el) :
    (((cards c).getD card none).bind fun allCpu ↦ allCpu.getD cpu none) = propsOf el := by
  obtain ⟨cardEl, hcard, hcpu⟩ := Option.bind_eq_some_iff.mp hel
  have hmem := (of_elementAt hcard).1
  rw [hcards card cardEl hcard, Option.bind_some,
    (foldlM_cpuAttribs (h.cpu_id cardEl hmem) (h.cpu_nodup cardEl hmem)).2, hcpu]
  rfl

/-- **The option tables are right if and only if nothing that a table has room for is missing**, and no devices are
inherited or differ in their options. -/
theorem tablesRight_iff (hroots : ∀ c, Configuration (roots c)) (hvisit : visit.Perm [.o, .u, .n])
    (horder : order.Perm [.o, .u, .n]) : TablesRight visit order roots ↔ Mergeable visit order roots := by
  have hnodup : [XmlConfig.o, .u, .n].Nodup := by decide
  have hvisitAll : ∀ c, c ∈ visit := fun c ↦ hvisit.mem_iff.mpr (mem_configs c)
  have horderAll : ∀ c, c ∈ order := fun c ↦ horder.mem_iff.mpr (mem_configs c)
  have hvisitNodup := hvisit.nodup_iff.mpr hnodup
  have horderNodup := horder.nodup_iff.mpr hnodup
  obtain ⟨cards, hcards, hrow⟩ := getCardCpuSpecificAttribs_spec hroots hvisitNodup hvisitAll
  obtain ⟨hdevs, hdevAt⟩ := getBlockDevsAttribs_spec hroots hvisitNodup hvisitAll
  constructor
  · rintro ⟨cards', devs, hcards', hdevs', hright⟩
    obtain rfl : cards = cards' := Option.some_inj.mp (hcards.symm.trans hcards')
    have hfirst := hdevs.mp (by rw [hdevs']; exact Option.some_ne_none devs)
    have hforce : ∀ c, ∀ card < numCards, ∀ cpu < numCpus, devsInForce visit roots c card cpu ≠ none := by
      intro c card hcard cpu hcpu
      obtain ⟨result, hresult, -⟩ := (hright card hcard cpu hcpu).devices
      rw [← hdevAt devs hdevs']
      exact place_of_combineAt hresult c (horderAll c)
    have hdevices : ∀ card < numCards, ∀ cpu < numCpus,
        Agree (order.flatMap fun c ↦ (devsInForce visit roots c card cpu).getD []) ∧
          ∀ p, expected (fun c ↦ devTexts ((devsInForce visit roots c card cpu).getD [])) p =
            expected (fun c ↦ devTexts ((ownDevs (roots c) card cpu).getD [])) p := by
      intro card hcard cpu hcpu
      obtain ⟨result, hresult, hread⟩ := (hright card hcard cpu hcpu).devices
      have hplace : ∀ c, ((devs c).getD card []).getD cpu none =
          some ((devsInForce visit roots c card cpu).getD []) := by
        intro c
        obtain ⟨d, hd⟩ := Option.ne_none_iff_exists'.mp (hforce c card hcard cpu hcpu)
        rw [hd]
        exact (hdevAt devs hdevs' c card cpu).trans hd
      obtain ⟨hgoes, hrun⟩ := combineAt_devs hplace horderNodup horderAll
      refine ⟨hgoes.mp ?_, fun p ↦ (hrun result hresult p).symm.trans (hread p)⟩
      rw [← combineDevs, hresult]
      exact Option.some_ne_none result
    refine ⟨fun c card hcard cpu hcpu ↦ ?_, hfirst, fun c card hcard cpu hcpu ↦ ?_,
      fun card hcard cpu hcpu ↦ (hdevices card hcard cpu hcpu).1⟩
    · obtain ⟨v, hv, hat⟩ := exists_of_inForce (hforce c card hcard cpu hcpu)
      have hel := cpuAt_eq (hroots c) hv hat
      refine ⟨v.2, hel, fun hnil ↦ ?_⟩
      obtain ⟨result, hresult, -⟩ := (hright card hcard cpu hcpu).options
      apply place_of_combineAt hresult c (horderAll c)
      rw [place_eq (hroots c) (hrow c) hel, propsOf, if_pos hnil]
    · exact (expected_devs_iff hroots).mp (hdevices card hcard cpu hcpu).2 c
  · intro h
    obtain ⟨devs, hdevs'⟩ := Option.ne_none_iff_exists'.mp (hdevs.mpr h.first)
    refine ⟨cards, devs, hcards, hdevs', fun card hcard cpu hcpu ↦ ?_⟩
    choose el hel hne using fun c ↦ h.complete c card hcard cpu hcpu
    constructor
    · have hplace : ∀ c, (((cards c).getD card none).bind fun allCpu ↦ allCpu.getD cpu none) =
          some (cpuProps (el c)) := by
        intro c
        rw [place_eq (hroots c) (hrow c) (hel c), propsOf, if_neg (hne c)]
      obtain ⟨result, hresult, hread⟩ := combineAt_options hplace horderNodup horderAll
      refine ⟨result, hresult, fun k ↦ (hread k).trans (expected_congr fun c ↦ ?_)⟩
      rw [last_cpuProps, ownOptions, hel]
      rfl
    · have hplace : ∀ c, ((devs c).getD card []).getD cpu none =
          some ((devsInForce visit roots c card cpu).getD []) := by
        intro c
        obtain ⟨d, hd⟩ := Option.ne_none_iff_exists'.mp (devsInForce_ne_none h.first (hvisitAll c) (hel c))
        rw [hd]
        exact (hdevAt devs hdevs' c card cpu).trans hd
      obtain ⟨hgoes, hrun⟩ := combineAt_devs hplace horderNodup horderAll
      obtain ⟨result, hresult⟩ := Option.ne_none_iff_exists'.mp (hgoes.mpr (h.agree card hcard cpu hcpu))
      refine ⟨result, hresult, fun p ↦ (hrun result hresult p).trans ?_⟩
      exact (expected_devs_iff hroots).mpr (fun c ↦ h.inherited c card hcard cpu hcpu) p

def uniformCpu (mask : String) (devs : List (String × Ptree)) (cpu : ℕ) : Ptree :=
  .node "" [(Ptree.xmlattr, .node "" [("id", .node (toString cpu) [])]), ("mask", .node mask []),
    ("block-devs", .node "" devs)]

def uniformCard (mask : String) (devs : List (String × Ptree)) (cpus card : ℕ) : Ptree :=
  .node "" ((Ptree.xmlattr, .node "" [("id", .node (toString card) [])]) ::
    (List.range cpus).map fun cpu ↦ ("cpu", uniformCpu mask devs cpu))

/-- So many cards with so many CPUs each, all with the same mask and the same devices. -/
def uniformConfig (mask : String) (devs : List (String × Ptree)) (cards cpus : ℕ) : Ptree :=
  .node "" ((List.range cards).map fun card ↦ ("card", uniformCard mask devs cpus card))

def blockDev (name enabled : String) : String × Ptree :=
  (name, .node "" [("enabled", .node enabled []), ("mode", .node "ramdisk" [])])

/-- The user has enabled the device, and the new release has another one. -/
def releaseDevs : XmlConfig → List (String × Ptree)
  | .o => [blockDev "vcablk0" ""]
  | .u => [blockDev "vcablk0" "1"]
  | .n => [blockDev "vcablk0" "", blockDev "vcablk1" ""]

/-- The user has changed the mask, too. -/
def threeConfigs (c : XmlConfig) : Ptree :=
  uniformConfig (if c = .u then "16" else "24") (releaseDevs c) numCards numCpus

instance (root : Ptree) : Decidable (Configuration root) :=
  decidable_of_iff ((∀ card ∈ findall root "card", ∃ k < numCards, idOf card = some (k : ℤ)) ∧
      ((findall root "card").map idOf).Nodup ∧ (∀ card ∈ findall root "card", (findall card "cpu").length ≠ 0) ∧
      (∀ card ∈ findall root "card", ∀ cpu ∈ findall card "cpu", ∃ k < numCpus, idOf cpu = some (k : ℤ)) ∧
      ∀ card ∈ findall root "card", ((findall card "cpu").map idOf).Nodup)
    ⟨fun h ↦ ⟨h.1, h.2.1, fun card hcard hnil ↦ h.2.2.1 card hcard (by rw [hnil]; rfl), h.2.2.2.1, h.2.2.2.2⟩,
      fun h ↦ ⟨h.card_id, h.card_nodup, fun card hcard hlen ↦ h.cpu_ne_nil card hcard (List.length_eq_zero_iff.mp hlen),
        h.cpu_id, h.cpu_nodup⟩⟩

instance (devs : List (String × Ptree)) : Decidable (Agree devs) :=
  decidable_of_iff (∀ dev ∈ devs, ∀ prop ∈ subelements dev.2,
    ((last devs dev.1).any fun el ↦ (subelements el).any fun prop' ↦ prop'.1 = prop.1) = true)
    (by simp [Agree, Option.any_eq_true])

theorem elementAt_map_range {n k : ℕ} {f : ℕ → Ptree} (hid : ∀ j < n, idOf (f j) = some (j : ℤ)) (hk : k < n) :
    elementAt k ((List.range n).map f) = some (f k) := by
  rw [elementAt, List.find?_map, Option.map_eq_some_iff]
  refine ⟨k, List.find?_range_eq_some.mpr ⟨?_, List.mem_range.mpr hk, fun j hj ↦ ?_⟩, rfl⟩
  · exact decide_eq_true (hid k hk)
  · have hne : idOf (f j) ≠ some (k : ℤ) := by
      rw [hid j (hj.trans hk)]
      exact fun heq ↦ hj.ne (Int.ofNat_inj.mp (Option.some_inj.mp heq))
    simp [hne]

theorem cpuAt_uniformConfig (mask : String) (devs : List (String × Ptree)) {card cpu : ℕ} (hcard : card < numCards)
    (hcpu : cpu < numCpus) :
    cpuAt (uniformConfig mask devs numCards numCpus) card cpu = some (uniformCpu mask devs cpu) := by
  have hcards : findall (uniformConfig mask devs numCards numCpus) "card" =
      (List.range numCards).map (uniformCard mask devs numCpus) := by
    simp [findall, subelements, uniformConfig, Ptree.children, Ptree.xmlattr, List.filter_map, Function.comp_def]
  have hcpus : findall (uniformCard mask devs numCpus card) "cpu" =
      (List.range numCpus).map (uniformCpu mask devs) := by
    simp [findall, subelements, uniformCard, Ptree.children, Ptree.xmlattr, List.filter_map, Function.comp_def]
  have hid : ∀ k < numCards, pyInt (toString k) = some (k : ℤ) := by decide +kernel
  have hattr : ∀ t : Ptree, ∀ k < numCards, t.attr "id" = some (toString k) → idOf t = some (k : ℤ) := by
    intro t k hk ht
    rw [idOf, ht, Option.bind_some, hid k hk]
  have hcardId : ∀ k < numCards, idOf (uniformCard mask devs numCpus k) = some (k : ℤ) :=
    fun k hk ↦ hattr _ k hk rfl
  have hcpuId : ∀ k < numCpus, idOf (uniformCpu mask devs k) = some (k : ℤ) :=
    fun k hk ↦ hattr _ k (hk.trans (by decide)) rfl
  rw [cpuAt, hcards, elementAt_map_range hcardId hcard, Option.bind_some, hcpus]
  exact elementAt_map_range hcpuId hcpu

theorem full_config_right : TablesRight [.u, .o, .n] [.n, .u, .o] threeConfigs := by
  have hconfig : ∀ c, Configuration (threeConfigs c) := by
    intro c
    cases c <;> decide +kernel
  have hown : ∀ c, ∀ card < numCards, ∀ cpu < numCpus, ownDevs (threeConfigs c) card cpu = some (releaseDevs c) := by
    intro c card hcard cpu hcpu
    rw [ownDevs, threeConfigs, cpuAt_uniformConfig _ _ hcard hcpu]
    cases c <;> rfl
  refine (tablesRight_iff hconfig (by decide) (by decide)).mpr ⟨?_, ?_, ?_, ?_⟩
  · intro c card hcard cpu hcpu
    exact ⟨_, cpuAt_uniformConfig _ _ hcard hcpu, List.cons_ne_nil _ _⟩
  · decide +kernel
  · intro c card hcard cpu hcpu hnone
    rw [hown c card hcard cpu hcpu] at hnone
    cases hnone
  · intro card hcard cpu hcpu
    have hforce : ∀ c, devsInForce [.u, .o, .n] threeConfigs c card cpu = some (releaseDevs c) :=
      fun c ↦ devsInForce_of_own (hconfig c) (hown c card hcard cpu hcpu)
    simp only [hforce, Option.getD_some]
    decide +kernel

/-- A card with one CPU: the places of the other cards are gone through as if they were lists. -/
theorem single_cpu_fails : Configuration (uniformConfig "24" [] 1 1) ∧
    ¬ TablesRight [.u, .o, .n] [.u, .o, .n] fun _ ↦ uniformConfig "24" [] 1 1 := by
  refine ⟨by decide +kernel, ?_⟩
  rintro ⟨cards, devs, -, hdevs, hright⟩
  obtain ⟨result, hresult, -⟩ := (hright 0 (by decide) 1 (by decide)).devices
  have hplace := place_of_combineAt hresult .o (by decide)
  have hnone : (getBlockDevsAttribs [.u, .o, .n] fun _ ↦ uniformConfig "24" [] 1 1).map
      (fun devs ↦ (((devs .o).getD 0 []).getD 1 none).isNone) = some true := by decide +kernel
  rw [hdevs, Option.map_some, Option.some_inj, Option.isNone_iff_eq_none] at hnone
  exact hplace hnone

end Positions

end Vcass.Upgrade
