import Vcass.Lib.Assoc
import Vcass.Upgrade.Tables

/-!
# Combining the options of three configurations

`combine_properties` makes an entry for every option that one of the configurations has, and fills in the texts.
Where the entries stay until they are filled, the result is the triple of texts at each position, whatever the
order of the configurations.

The entries of a block device do not stay: they are made anew for each configuration that has the device. What is
left are the options that the device has where it was seen last, and a text for any other option has no place.
-/

namespace Vcass.Upgrade

open Vcass.Config Assoc

/-! ## Dictionaries -/

namespace Dict

variable {α : Type} {d d' : Dict α} {key k : String} {val : α}

theorem get_map_replace (d : Dict α) : get (d.map fun p ↦ if p.1 = key then (key, val) else p) k =
    if key = k then (d.get k).map fun _ ↦ val else d.get k := by
  induction d with
  | nil => simp [get]
  | cons p d ih =>
    rw [get] at ih ⊢
    rw [get] at ih ⊢
    rw [List.map_cons]
    by_cases hp : p.1 = key
    · rw [if_pos hp]
      by_cases hk : key = k
      · rw [List.find?_cons_of_pos (by simpa using hk), if_pos hk, List.find?_cons_of_pos (by simpa [hp] using hk)]
        rfl
      · rw [List.find?_cons_of_neg (by simpa using hk), List.find?_cons_of_neg (by simpa [hp] using hk)]
        exact ih
    · rw [if_neg hp]
      by_cases hk : p.1 = k
      · have hne : key ≠ k := fun h ↦ hp (hk.trans h.symm)
        rw [List.find?_cons_of_pos (by simpa using hk), if_neg hne, List.find?_cons_of_pos (by simpa using hk)]
      · rw [List.find?_cons_of_neg (by simpa using hk), List.find?_cons_of_neg (by simpa using hk)]
        exact ih

theorem get_set (d : Dict α) (key : String) (val : α) (k : String) :
    (d.set key val).get k = if key = k then some val else d.get k := by
  rw [set]
  by_cases hany : d.any (fun p ↦ p.1 = key) = true
  · rw [if_pos hany, get_map_replace]
    by_cases hk : key = k
    · subst hk
      obtain ⟨p, hp, hkey⟩ := List.any_eq_true.mp hany
      have hsome : (d.get key).isSome := by
        rw [get, Option.isSome_map, List.find?_isSome]
        exact ⟨p, hp, hkey⟩
      obtain ⟨a, ha⟩ := Option.isSome_iff_exists.mp hsome
      rw [if_pos rfl, if_pos rfl, ha]
      rfl
    · rw [if_neg hk, if_neg hk]
  · rw [if_neg hany]
    have hnone : d.find? (fun p ↦ p.1 = key) = none := by
      rw [List.find?_eq_none]
      intro p hp hkey
      exact hany (List.any_eq_true.mpr ⟨p, hp, hkey⟩)
    rw [get, List.find?_append]
    by_cases hk : key = k
    · subst hk
      rw [hnone, if_pos rfl]
      simp
    · rw [if_neg hk, get]
      simp [hk]

/-- A value is changed by a function that may fail only if there is no value. -/
theorem modify_eq_none_iff {f : α → Option α} : d.modify key f = none ↔ (d.get key).bind f = none := by
  rw [modify]
  cases d.get key with
  | none => exact iff_of_true rfl rfl
  | some a => exact Option.map_eq_none_iff

theorem get_modify {f : α → Option α} (h : d.modify key f = some d') (k : String) :
    d'.get k = if key = k then (d.get k).bind f else d.get k := by
  rw [modify, Option.bind_eq_some_iff] at h
  obtain ⟨a, ha, h⟩ := h
  obtain ⟨b, hb, rfl⟩ := Option.map_eq_some_iff.mp h
  rw [get_set]
  by_cases hk : key = k
  · subst hk
    rw [if_pos rfl, if_pos rfl, ha, Option.bind_some, hb]
  · rw [if_neg hk, if_neg hk]

end Dict

/-! ## Triples of texts -/

section Triple

variable {κ : Type} [DecidableEq κ]

def Values.at (v : Values) : XmlConfig → Option String
  | .o => v.old
  | .u => v.user
  | .n => v.new

/-- The three texts at a position; a configuration that has none there has a missing mark. -/
def triple (texts : XmlConfig → List (κ × Option String)) (k : κ) : Values :=
  ⟨(last (texts .o) k).join, (last (texts .u) k).join, (last (texts .n) k).join⟩

/-- What a table is to have at a position: nothing if none of the configurations has anything there. -/
def expected (texts : XmlConfig → List (κ × Option String)) (k : κ) : Option Values :=
  if ∃ c ∈ [XmlConfig.o, .u, .n], last (texts c) k ≠ none then some (triple texts k) else none

theorem Values.ext_at {v w : Values} (h : ∀ c, v.at c = w.at c) : v = w := by
  obtain ⟨vo, vu, vn⟩ := v
  obtain ⟨wo, wu, wn⟩ := w
  obtain rfl : vo = wo := h .o
  obtain rfl : vu = wu := h .u
  obtain rfl : vn = wn := h .n
  rfl

@[simp] theorem at_set (v : Values) (val : Option String) (c c' : XmlConfig) :
    (v.set val c).at c' = if c = c' then val else v.at c' := by
  cases c <;> cases c' <;> rfl

@[simp] theorem at_none (c : XmlConfig) : Values.none.at c = Option.none := by
  cases c <;> rfl

theorem at_triple (texts : XmlConfig → List (κ × Option String)) (k : κ) (c : XmlConfig) :
    (triple texts k).at c = (last (texts c) k).join := by
  cases c <;> rfl

theorem mem_configs (c : XmlConfig) : c ∈ [XmlConfig.o, .u, .n] := by
  cases c <;> decide

theorem expected_eq_none_iff {texts : XmlConfig → List (κ × Option String)} {k : κ} :
    expected texts k = none ↔ ∀ c, last (texts c) k = none := by
  rw [expected]
  split_ifs with h
  · obtain ⟨c, -, hc⟩ := h
    exact iff_of_false not_false fun hall ↦ hc (hall c)
  · refine iff_of_true rfl fun c ↦ ?_
    by_contra hc
    exact h ⟨c, mem_configs c, hc⟩

theorem expected_eq_some {texts : XmlConfig → List (κ × Option String)} {k : κ} {c : XmlConfig}
    (h : last (texts c) k ≠ none) : expected texts k = some (triple texts k) :=
  if_pos ⟨c, mem_configs c, h⟩

/-- The entries of all configurations, in the order in which they are visited. -/
def tagged (order : List XmlConfig) (texts : XmlConfig → List (κ × Option String)) :
    List (κ × XmlConfig × Option String) :=
  order.flatMap fun c ↦ (texts c).map fun e ↦ (e.1, c, e.2)

/-- The texts that are written at a position for one of the configurations are its own. -/
theorem last_tagged {order : List XmlConfig} (hnodup : order.Nodup) (texts : XmlConfig → List (κ × Option String))
    (k : κ) {c : XmlConfig} (hc : c ∈ order) :
    last (((tagged order texts).filter fun e ↦ e.1 = k).map Prod.snd) c = last (texts c) k := by
  have hblock : ∀ c' : XmlConfig,
      last ((((texts c').map fun e ↦ (e.1, c', e.2)).filter fun e ↦ e.1 = k).map Prod.snd) c =
        if c' = c then last (texts c') k else none := by
    intro c'
    induction texts c' with
    | nil => simp
    | cons e es ih =>
      rw [List.map_cons, last_cons]
      by_cases hk : e.1 = k
      · rw [List.filter_cons_of_pos (by simpa using hk), List.map_cons, last_cons, ih, if_pos hk]
        split_ifs <;> rfl
      · rw [List.filter_cons_of_neg (by simpa using hk), ih, if_neg hk, Option.or_none]
  induction order with
  | nil => exact absurd hc List.not_mem_nil
  | cons c' order ih =>
    obtain ⟨hnotin, hnodup⟩ := List.nodup_cons.mp hnodup
    rw [tagged, List.flatMap_cons, List.filter_append, List.map_append, last_append, hblock]
    rcases List.mem_cons.mp hc with rfl | hc
    · -- the entries that follow belong to other configurations
      have hrest : last (((tagged order texts).filter fun e ↦ e.1 = k).map Prod.snd) c = none := by
        rw [last_eq_none_iff]
        rintro ⟨c', t⟩ he rfl
        obtain ⟨x, hx, hsnd⟩ := List.mem_map.mp he
        obtain ⟨c'', hc'', hx⟩ := List.mem_flatMap.mp (List.mem_of_mem_filter hx)
        obtain ⟨e, -, rfl⟩ := List.mem_map.mp hx
        exact hnotin ((congrArg Prod.fst hsnd : c'' = c') ▸ hc'')
      change (last (((tagged order texts).filter fun e ↦ e.1 = k).map Prod.snd) c).or _ = _
      rw [hrest, if_pos rfl, Option.none_or]
    · have hne : c' ≠ c := fun h ↦ hnotin (h ▸ hc)
      rw [if_neg hne, Option.or_none]
      exact ih hnodup hc

theorem foldl_set_eq_triple {order : List XmlConfig} (hnodup : order.Nodup) (hall : ∀ c, c ∈ order)
    (texts : XmlConfig → List (κ × Option String)) (k : κ) :
    (((tagged order texts).filter fun e ↦ e.1 = k).map Prod.snd).foldl (fun v a ↦ v.set a.2 a.1) Values.none =
      triple texts k := by
  apply Values.ext_at
  intro c
  have hwrite : ∀ (v : Values) (e : XmlConfig × Option String) c,
      some ((v.set e.2 e.1).at c) = if e.1 = c then some e.2 else some (v.at c) := by
    intro v e c
    rw [at_set]
    split_ifs <;> rfl
  have hread := read_foldl_last (fun v c ↦ some (Values.at v c)) (fun v e ↦ v.set e.2 e.1) hwrite
    (((tagged order texts).filter fun e ↦ e.1 = k).map Prod.snd) Values.none c
  rw [last_tagged hnodup texts k (hall c)] at hread
  rw [at_triple]
  cases hlast : last (texts c) k with
  | none => simpa [hlast] using hread
  | some t => simpa [hlast] using hread

end Triple

/-! ## The two passes -/

section Passes

variable {ι β κ : Type} [DecidableEq κ] {order : List XmlConfig} {place : XmlConfig → Option (List ι)}
variable {make : ι → Dict β → Dict β} {fill : XmlConfig → ι → Dict β → Option (Dict β)}

/-- There is a `TypeError` where a configuration has nothing at the place. -/
theorem place_of_combineAt {result : Dict β} (h : combineAt order place make fill = some result) :
    ∀ c ∈ order, place c ≠ none := by
  rw [combineAt, Option.bind_eq_bind, Option.bind_eq_some_iff] at h
  obtain ⟨made, h, -⟩ := h
  have hpass : ∀ t, order.foldlM (fun result config ↦ (place config).map fun items ↦
      items.foldl (fun result item ↦ make item result) result) t = some made → ∀ c ∈ order, place c ≠ none := by
    clear h
    induction order with
    | nil => exact fun _ _ _ hc ↦ absurd hc List.not_mem_nil
    | cons c order ih =>
      intro t ht c' hc'
      rw [List.foldlM_cons, Option.bind_eq_bind, Option.bind_eq_some_iff] at ht
      obtain ⟨u, hu, hrest⟩ := ht
      rcases List.mem_cons.mp hc' with rfl | hc'
      · intro hnone
        simp [hnone] at hu
      · exact ih u hrest c' hc'
  exact hpass [] h

/-- The entries that are made. -/
def made (order : List XmlConfig) (items : XmlConfig → List ι) (make : ι → Dict β → Dict β) : Dict β :=
  (order.flatMap items).foldl (fun result item ↦ make item result) []

/-- Both passes, where every configuration has something at the place. -/
theorem combineAt_eq {items : XmlConfig → List ι} (hplace : ∀ c, place c = some (items c)) :
    combineAt order place make fill =
      order.foldlM (fun result c ↦ (items c).foldlM (fun result item ↦ fill c item result) result)
        (made order items make) := by
  have hmake : ∀ t, order.foldlM (fun result config ↦ (place config).map fun items ↦
      items.foldl (fun result item ↦ make item result) result) t =
        some ((order.flatMap items).foldl (fun result item ↦ make item result) t) := by
    induction order with
    | nil => exact fun _ ↦ rfl
    | cons c order ih =>
      intro t
      rw [List.foldlM_cons, hplace, Option.map_some, List.flatMap_cons, List.foldl_append]
      exact ih _
  rw [combineAt, hmake]
  change order.foldlM _ (made order items make) = _
  congr 1
  funext result c
  rw [hplace]
  rfl

variable (read : Dict β → κ → Option Values) (entries : ι → List (κ × Option String))
variable (put : XmlConfig → Dict β → κ × Option String → Option (Dict β))

omit [DecidableEq κ] in
/-- The second pass writes one text after the other. -/
theorem foldlM_fill {items : XmlConfig → List ι}
    (hfill : ∀ c item result, fill c item result = (entries item).foldlM (put c) result) (result : Dict β) :
    order.foldlM (fun result c ↦ (items c).foldlM (fun result item ↦ fill c item result) result) result =
      (tagged order fun c ↦ (items c).flatMap entries).foldlM
        (fun result e ↦ put e.2.1 result (e.1, e.2.2)) result := by
  induction order generalizing result with
  | nil => rfl
  | cons c order ih =>
    have hblock : ∀ result, (items c).foldlM (fun result item ↦ fill c item result) result =
        (((items c).flatMap entries).map fun e ↦ (e.1, c, e.2)).foldlM
          (fun result e ↦ put e.2.1 result (e.1, e.2.2)) result := by
      intro result
      rw [List.foldlM_map]
      induction items c generalizing result with
      | nil => rfl
      | cons item rest ih' =>
        rw [List.foldlM_cons, List.flatMap_cons, List.foldlM_append, hfill]
        congr 1
        funext result
        exact ih' result
    rw [List.foldlM_cons, tagged, List.flatMap_cons, List.foldlM_append, hblock]
    congr 1
    funext result
    exact ih result

/-- **The result of the two passes**: they go through if each text finds its entry, and leave the triples. -/
theorem combineAt_spec {items : XmlConfig → List ι} (hplace : ∀ c, place c = some (items c)) (hnodup : order.Nodup)
    (hall : ∀ c, c ∈ order) (hfill : ∀ c item result, fill c item result = (entries item).foldlM (put c) result)
    (hnone : ∀ c result e, put c result e = none ↔ read result e.1 = none)
    (hsome : ∀ c result e result', put c result e = some result' → ∀ k,
      read result' k = if e.1 = k then (read result k).map (·.set e.2 c) else read result k)
    (hmade : ∀ k v, read (made order items make) k = some v → v = Values.none) :
    (combineAt order place make fill ≠ none ↔
      ∀ c, ∀ e ∈ (items c).flatMap entries, read (made order items make) e.1 ≠ none) ∧
    ∀ result, combineAt order place make fill = some result → ∀ k,
      read result k = (read (made order items make) k).map fun _ ↦ triple (fun c ↦ (items c).flatMap entries) k := by
  obtain ⟨hstop, hrun⟩ := read_foldlM read (fun result e ↦ put e.2.1 result (e.1, e.2.2))
    (fun v a ↦ v.set a.2 a.1) (fun result e ↦ hnone e.2.1 result (e.1, e.2.2))
    (fun result e result' h ↦ hsome e.2.1 result (e.1, e.2.2) result' h)
    (tagged order fun c ↦ (items c).flatMap entries) (made order items make)
  rw [combineAt_eq hplace, foldlM_fill entries put hfill]
  constructor
  · rw [Ne, hstop, not_exists]
    constructor
    · intro h c e he hread
      exact h (e.1, c, e.2) ⟨List.mem_flatMap.mpr ⟨c, hall c, List.mem_map.mpr ⟨e, he, rfl⟩⟩, hread⟩
    · rintro h x ⟨hx, hread⟩
      obtain ⟨c, -, hx⟩ := List.mem_flatMap.mp hx
      obtain ⟨e, he, rfl⟩ := List.mem_map.mp hx
      exact h c e he hread
  · intro result hresult k
    rw [hrun result hresult k]
    cases hread : read (made order items make) k with
    | none => rfl
    | some v =>
      obtain rfl := hmade k v hread
      exact congrArg some (foldl_set_eq_triple hnodup hall _ k)

end Passes

/-! ## Options -/

section Options

variable {order : List XmlConfig} {items : XmlConfig → List (String × Option String)}

theorem made_makeOption (k : String) : (made order items makeOption).get k =
    (last ((order.flatMap items).map fun e ↦ (e.1, Values.none)) k) := by
  have hread := read_foldl_last (fun d k ↦ Dict.get d k) (fun d e ↦ d.set e.1 e.2)
    (fun d e k ↦ Dict.get_set d e.1 e.2 k) ((order.flatMap items).map fun e ↦ (e.1, Values.none)) [] k
  rw [List.foldl_map] at hread
  exact hread.trans (Option.or_none)

theorem made_makeOption_eq_none_iff (hall : ∀ c, c ∈ order) (k : String) :
    (made order items makeOption).get k = none ↔ ∀ c, last (items c) k = none := by
  rw [made_makeOption, last_map_snd fun _ ↦ Values.none, Option.map_eq_none_iff, last_eq_none_iff]
  constructor
  · intro h c
    rw [last_eq_none_iff]
    exact fun e he ↦ h e (List.mem_flatMap.mpr ⟨c, hall c, he⟩)
  · intro h e he
    obtain ⟨c, -, he⟩ := List.mem_flatMap.mp he
    exact last_eq_none_iff.mp (h c) e he

/-- **The options of a CPU are combined without an error, and the result has the triples.** -/
theorem combineAt_options {place : XmlConfig → Option (List (String × Option String))}
    (hplace : ∀ c, place c = some (items c)) (hnodup : order.Nodup) (hall : ∀ c, c ∈ order) :
    ∃ result, combineAt order place makeOption fillOption = some result ∧ ∀ k, result.get k = expected items k := by
  have hentries : ∀ c, (items c).flatMap (fun item ↦ [item]) = items c := fun c ↦ List.flatMap_singleton' _
  obtain ⟨hgoes, hrun⟩ := @combineAt_spec _ _ _ _ order place makeOption fillOption Dict.get
    (fun item ↦ [item]) (fun c result e ↦ fillOption c e result) items hplace hnodup hall (fun c item result ↦ by simp)
    (fun c result e ↦ by rw [fillOption, Dict.modify_eq_none_iff]; cases result.get e.1 <;> simp)
    (fun c result e result' h k ↦ by
      rw [Dict.get_modify h k]
      split_ifs <;> simp [Option.map_eq_bind])
    (fun k v h ↦ by
      rw [made_makeOption, last_map_snd fun _ ↦ Values.none] at h
      obtain ⟨-, -, rfl⟩ := Option.map_eq_some_iff.mp h
      rfl)
  simp only [hentries] at hgoes hrun
  have hne : combineAt order place makeOption fillOption ≠ none := by
    rw [hgoes]
    intro c e he hnone
    exact last_eq_none_iff.mp ((made_makeOption_eq_none_iff hall e.1).mp hnone c) e he rfl
  obtain ⟨result, hresult⟩ := Option.ne_none_iff_exists'.mp hne
  refine ⟨result, hresult, fun k ↦ ?_⟩
  rw [hrun result hresult k]
  cases hread : (made order items makeOption).get k with
  | none => exact (expected_eq_none_iff.mpr ((made_makeOption_eq_none_iff hall k).mp hread)).symm
  | some v =>
    have hsome : (made order items makeOption).get k ≠ none := by simp [hread]
    rw [Ne, made_makeOption_eq_none_iff hall, not_forall] at hsome
    obtain ⟨c, hc⟩ := hsome
    exact (expected_eq_some hc).symm

end Options

/-! ## Block devices -/

section Devices

/-- The texts of the options of devices. -/
def devTexts (devs : List (String × Ptree)) : List ((String × String) × Option String) :=
  devs.flatMap fun dev ↦ (subelements dev.2).map fun prop ↦ ((dev.1, prop.1), text prop.2)

/-- Every option of a device is one that the device has where it comes last. -/
def Agree (devs : List (String × Ptree)) : Prop :=
  ∀ dev ∈ devs, ∀ prop ∈ subelements dev.2, ∃ el, last devs dev.1 = some el ∧ ∃ prop' ∈ subelements el, prop'.1 = prop.1

variable {order : List XmlConfig} {items : XmlConfig → List (String × Ptree)}

/-- An option of a device, in the table of the devices. -/
def getDev (result : Dict (Dict Values)) (k : String × String) : Option Values :=
  (result.get k.1).bind fun entry ↦ entry.get k.2

/-- The entry that is made for a device. -/
def devEntry (dev : Ptree) : Dict Values := (subelements dev).foldl (fun entry prop ↦ entry.set prop.1 Values.none) []

theorem get_devEntry (dev : Ptree) (k : String) :
    (devEntry dev).get k = if ∃ prop ∈ subelements dev, prop.1 = k then some Values.none else none := by
  have hread := read_foldl_last (fun d k ↦ Dict.get d k) (fun d e ↦ d.set e.1 e.2)
    (fun d e k ↦ Dict.get_set d e.1 e.2 k) ((subelements dev).map fun e ↦ (e.1, Values.none)) [] k
  rw [List.foldl_map] at hread
  refine hread.trans (Option.or_none.trans ?_)
  rw [last_map_snd fun _ ↦ Values.none]
  split_ifs with h
  · obtain ⟨el, hel⟩ := Option.ne_none_iff_exists'.mp (last_ne_none_iff.mpr h)
    rw [hel]
    rfl
  · rw [not_not.mp (last_ne_none_iff.not.mpr h)]
    rfl

theorem getDev_made (k : String × String) :
    getDev (made order items makeDev) k = (last (order.flatMap items) k.1).bind fun el ↦ (devEntry el).get k.2 := by
  have hread := read_foldl_last (fun d k ↦ Dict.get d k) (fun d e ↦ d.set e.1 e.2)
    (fun d e k ↦ Dict.get_set d e.1 e.2 k) ((order.flatMap items).map fun e ↦ (e.1, devEntry e.2)) [] k.1
  rw [List.foldl_map, last_map_snd devEntry] at hread
  have hmade : (made order items makeDev).get k.1 = (last (order.flatMap items) k.1).map devEntry :=
    hread.trans Option.or_none
  rw [getDev, hmade, Option.bind_map]
  rfl

theorem getDev_made_ne_none_iff (k : String × String) : getDev (made order items makeDev) k ≠ none ↔
    ∃ el, last (order.flatMap items) k.1 = some el ∧ ∃ prop ∈ subelements el, prop.1 = k.2 := by
  rw [getDev_made]
  cases last (order.flatMap items) k.1 with
  | none => simp
  | some el =>
    rw [Option.bind_some, get_devEntry]
    split_ifs with h
    · exact iff_of_true nofun ⟨el, rfl, h⟩
    · refine iff_of_false (not_not_intro rfl) ?_
      rintro ⟨el', hel, h'⟩
      exact h (Option.some_inj.mp hel ▸ h')

/-- A text is filled in. -/
def putDev (c : XmlConfig) (result : Dict (Dict Values)) (e : (String × String) × Option String) :
    Option (Dict (Dict Values)) :=
  result.modify e.1.1 fun entry ↦ entry.modify e.1.2 fun values ↦ some (values.set e.2 c)

section Put

variable {c : XmlConfig} {result result' : Dict (Dict Values)} {e : (String × String) × Option String}

theorem putDev_eq_none_iff : putDev c result e = none ↔ getDev result e.1 = none := by
  rw [putDev, Dict.modify_eq_none_iff, getDev]
  cases result.get e.1.1 with
  | none => exact iff_of_true rfl rfl
  | some entry =>
    rw [Option.bind_some, Option.bind_some, Dict.modify_eq_none_iff]
    cases entry.get e.1.2 <;> simp

theorem getDev_putDev (h : putDev c result e = some result') (k : String × String) :
    getDev result' k = if e.1 = k then (getDev result k).map (·.set e.2 c) else getDev result k := by
  rw [getDev, Dict.get_modify h]
  by_cases hdev : e.1.1 = k.1
  · rw [if_pos hdev, getDev]
    cases hentry : result.get k.1 with
    | none => simp
    | some entry =>
      rw [Option.bind_some, Option.bind_some]
      cases hmod : entry.modify e.1.2 fun v ↦ some (v.set e.2 c) with
      | none =>
        rw [putDev, Dict.modify, hdev, hentry] at h
        simp [hmod] at h
      | some entry' =>
        rw [Option.bind_some, Dict.get_modify hmod]
        by_cases hprop : e.1.2 = k.2
        · rw [if_pos hprop, if_pos (Prod.ext hdev hprop)]
          simp [Option.map_eq_bind]
        · rw [if_neg hprop, if_neg fun h ↦ hprop (congrArg Prod.snd h)]
  · rw [if_neg hdev, if_neg fun h ↦ hdev (congrArg Prod.fst h)]
    rfl

end Put

theorem getDev_made_eq {k : String × String} {v : Values} (h : getDev (made order items makeDev) k = some v) :
    v = Values.none := by
  rw [getDev_made] at h
  obtain ⟨el, -, h⟩ := Option.bind_eq_some_iff.mp h
  rw [get_devEntry] at h
  split_ifs at h
  exact (Option.some_inj.mp h).symm

theorem exists_of_mem_devTexts {devs : List (String × Ptree)} {e : (String × String) × Option String}
    (h : e ∈ devTexts devs) : ∃ dev ∈ devs, ∃ prop ∈ subelements dev.2, e.1 = (dev.1, prop.1) := by
  obtain ⟨dev, hdev, h⟩ := List.mem_flatMap.mp h
  obtain ⟨prop, hprop, rfl⟩ := List.mem_map.mp h
  exact ⟨dev, hdev, prop, hprop, rfl⟩

theorem exists_mem_devTexts {devs : List (String × Ptree)} {dev prop : String × Ptree} (hdev : dev ∈ devs)
    (hprop : prop ∈ subelements dev.2) : ((dev.1, prop.1), text prop.2) ∈ devTexts devs :=
  List.mem_flatMap.mpr ⟨dev, hdev, List.mem_map.mpr ⟨prop, hprop, rfl⟩⟩

/-- **The options of the devices of a CPU**: they are combined if no entry is lost, and then the result has the
triples. -/
theorem combineAt_devs {place : XmlConfig → Option (List (String × Ptree))}
    (hplace : ∀ c, place c = some (items c)) (hnodup : order.Nodup) (hall : ∀ c, c ∈ order) :
    (combineAt order place makeDev fillDev ≠ none ↔ Agree (order.flatMap items)) ∧
      ∀ result, combineAt order place makeDev fillDev = some result → ∀ k,
        getDev result k = expected (fun c ↦ devTexts (items c)) k := by
  obtain ⟨hgoes, hrun⟩ := @combineAt_spec _ _ _ _ order place makeDev fillDev getDev
    (fun dev ↦ (subelements dev.2).map fun prop ↦ ((dev.1, prop.1), text prop.2)) putDev items hplace hnodup hall
    (fun c item result ↦ by rw [List.foldlM_map]; rfl) (fun c result e ↦ putDev_eq_none_iff)
    (fun c result e result' ↦ getDev_putDev) (fun k v ↦ getDev_made_eq)
  constructor
  · rw [hgoes]
    constructor
    · intro h dev hdev prop hprop
      obtain ⟨c, -, hdev⟩ := List.mem_flatMap.mp hdev
      exact (getDev_made_ne_none_iff _).mp (h c _ (exists_mem_devTexts hdev hprop))
    · intro h c e he
      obtain ⟨dev, hdev, prop, hprop, hkey⟩ := exists_of_mem_devTexts he
      rw [getDev_made_ne_none_iff, hkey]
      exact h dev (List.mem_flatMap.mpr ⟨c, hall c, hdev⟩) prop hprop
  · intro result hresult k
    rw [hrun result hresult k]
    cases hread : getDev (made order items makeDev) k with
    | none =>
      -- an option that has no entry is in none of the configurations
      refine (expected_eq_none_iff.mpr fun c ↦ last_eq_none_iff.mpr fun e he hk ↦ ?_).symm
      exact hgoes.mp (by simp [hresult]) c e he (hk ▸ hread)
    | some v =>
      have hsome : getDev (made order items makeDev) k ≠ none := by simp [hread]
      obtain ⟨el, hlast, prop, hprop, hkey⟩ := (getDev_made_ne_none_iff k).mp hsome
      obtain ⟨c, -, hmem⟩ := List.mem_flatMap.mp (mem_of_last hlast)
      have htext : ((k.1, prop.1), text prop.2) ∈ devTexts (items c) := exists_mem_devTexts hmem hprop
      rw [hkey] at htext
      have hlast' : last (devTexts (items c)) k ≠ none := last_ne_none_iff.mpr ⟨_, htext, rfl⟩
      exact (@expected_eq_some _ _ (fun c ↦ devTexts (items c)) k c hlast').symm

end Devices

end Vcass.Upgrade
