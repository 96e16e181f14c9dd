import Mathlib.Data.List.Forall2
import Vcass.Config.RoundTrip

/-!
# A block device is added

`add_blk_dev_fields` puts a new element into the list of block devices of a CPU. It goes through the file in
nested loops, builds each list anew, and has the configuration in memory read the CPU once more for every list.
It reads the CPU while the new list is not yet in its place.

## Two ways to find a device

The name of an element is compared with the name of the device, and it is also scanned for a number. The scan
accepts names that are spelled differently, such as `vcablk01`.

## Leaving the loops

A `return` within the loops leaves the file as it is, and what was read into the memory stays there. So a list
that has the device already ends the walk for the lists before and after it, too.
-/

namespace Vcass.Config

open LastWrite

/-- What ends a walk early. -/
inductive Stop
  | returns (value : Bool)
  | throws (fault : Fault)

/-- A walk over the file reads into the memory, and may end early. -/
abbrev Walk (α : Type) := ExceptT Stop (StateM VcaConfig) α

/-! ## The function -/

/-- What `parse_blk_devs` returns. -/
def parsesBlkDevs (node : Ptree) : Bool := (node.getChild CpuField.blockDevs.dataField.name).isSome

/-- `parse_blk_devs`, and the return if it fails. -/
def parse (card cpu : ℕ) (node : Ptree) : Walk Unit := do
  modify (parseBlkDevs card cpu node)
  if parsesBlkDevs node then pure () else throw (.returns false)

/-- The element of a new device: every field is empty. -/
def newBlkDev (dev : ℕ) : String × Ptree :=
  (getBlockDevNameFromId dev, .node "" (BlkDevField.all.map fun f ↦ (f.dataField.name, .node "" [])))

/-- The loop over the devices of a list, with the new list and whether the device is in it. -/
def addLoop (card cpu dev : ℕ) (node : Ptree) :
    List (String × Ptree) → List (String × Ptree) → Bool → Walk (List (String × Ptree) × Bool)
  | [], new, added => pure (new, added)
  | c :: cs, new, added =>
    match extractBlockDevId c.1 with
    | none => throw (.returns false)
    | some id =>
      if c.1 = getBlockDevNameFromId dev then throw (.returns true)
      else if id < dev then addLoop card cpu dev node cs (new ++ [c]) added
      else if dev < id then
        if added then addLoop card cpu dev node cs (new ++ [c]) added
        else do
          parse card cpu node
          addLoop card cpu dev node cs (new ++ [newBlkDev dev, c]) true
      -- a device of this number with another name is dropped
      else addLoop card cpu dev node cs new added

/-- After the loop, the device is added unless it was. -/
def addLast (card cpu dev : ℕ) (node : Ptree) (new : List (String × Ptree) × Bool) : Walk Ptree :=
  if new.2 then pure (.node "" new.1)
  else do
    parse card cpu node
    pure (.node "" (new.1 ++ [newBlkDev dev]))

/-- The new list for one of a CPU. -/
def addToList (card cpu dev : ℕ) (node list : Ptree) : Walk Ptree := do
  let new ← addLoop card cpu dev node list.children [] false
  addLast card cpu dev node new

/-- The loop over the children of a CPU; those before have been replaced. -/
def addToLists (card cpu dev : ℕ) (t : Ptree) :
    List (String × Ptree) → List (String × Ptree) → Walk (List (String × Ptree))
  | done, [] => pure done
  | done, c :: cs =>
    if c.1 = "block-devs" then do
      let list ← addToList card cpu dev (t.withChildren (done ++ c :: cs)) c.2
      addToLists card cpu dev t (done ++ [(c.1, list)]) cs
    else addToLists card cpu dev t (done ++ [c]) cs

def addToCpu (card cpu dev : ℕ) (t : Ptree) : Walk Ptree := do
  let cs ← addToLists card cpu dev t [] t.children
  pure (t.withChildren cs)

/-- A loop over the children of a name that have a number. -/
def walkIds (name : String) (id : ℕ) (body : Ptree → Walk Ptree) :
    List (String × Ptree) → Walk (List (String × Ptree))
  | [] => pure []
  | c :: cs => do
    let t ← if c.1 = name then
        match hasId id c.2 with
        | .error fault => throw (.throws fault)
        | .ok true => body c.2
        | .ok false => pure c.2
      else pure c.2
    let cs ← walkIds name id body cs
    pure ((c.1, t) :: cs)

def walkChildren (name : String) (id : ℕ) (body : Ptree → Walk Ptree) (t : Ptree) : Walk Ptree := do
  let cs ← walkIds name id body t.children
  pure (t.withChildren cs)

/-- All loops. -/
def addWalk (card cpu dev : ℕ) (root : Ptree) : Walk Ptree :=
  walkChildren "card" card (walkChildren "cpu" cpu (addToCpu card cpu dev)) root

/-- What a call leaves and returns. -/
structure Call where
  file : Ptree
  cfg : VcaConfig
  returns : Except Fault Bool

/-- The end of a call: the file is stored after a whole walk only. A text that is no number throws what the
function does not catch. -/
def Call.ofWalk (env : Env) (file : Ptree) : Except Stop Ptree × VcaConfig → Call
  | (.error (.returns value), cfg) => ⟨file, cfg, .ok value⟩
  | (.error (.throws .badPath), cfg) => ⟨file, cfg, .ok false⟩
  | (.error (.throws .badData), cfg) => ⟨file, cfg, .error .badData⟩
  | (.ok root, cfg) =>
    match saveVcaXml env root with
    | some file => ⟨file, cfg, .ok true⟩
    | none => ⟨file, cfg, .ok false⟩

def addBlkDevFields (env : Env) (card cpu dev : ℕ) (file : Ptree) (cfg : VcaConfig) : Call :=
  if !env.lock then ⟨file, cfg, .ok false⟩
  else
    match loadVcaXml file with
    | none => ⟨file, cfg, .ok false⟩
    | some root => .ofWalk env file ((addWalk card cpu dev root).run cfg)

def blkDevExist (cfg : VcaConfig) (card cpu dev : ℕ) : Bool := dev < maxBlkDevs && cfg.exist card cpu dev

/-! ## What a walk does to the memory -/

/-- The CPUs are read, one after the other. -/
def reread (card cpu : ℕ) (nodes : List Ptree) (cfg : VcaConfig) : VcaConfig :=
  nodes.foldl (fun cfg node ↦ parseBlkDevs card cpu node cfg) cfg

/-- The walk reads these CPUs, whatever the memory holds, and ends in this way. -/
def Emits {α : Type} (card cpu : ℕ) (x : Walk α) (nodes : List Ptree) (r : Except Stop α) : Prop :=
  ∀ cfg, x.run cfg = (r, reread card cpu nodes cfg)

section Emits

variable {α β : Type} {card cpu : ℕ} {x : Walk α} {f : α → Walk β} {a : α} {stop : Stop} {nodes nodes' : List Ptree}
  {r : Except Stop β} {node : Ptree}

theorem reread_append (cfg : VcaConfig) :
    reread card cpu (nodes ++ nodes') cfg = reread card cpu nodes' (reread card cpu nodes cfg) := List.foldl_append

theorem run_bind (x : Walk α) (f : α → Walk β) (cfg : VcaConfig) :
    (x >>= f).run cfg = match x.run cfg with
      | (.ok a, cfg') => (f a).run cfg'
      | (.error stop, cfg') => (.error stop, cfg') := by
  change StateT.bind x.run (fun r ↦ ExceptT.bindCont f r) cfg = _
  rw [StateT.bind]
  change (match x.run cfg with | (a, cfg') => ExceptT.bindCont f a cfg') = _
  rcases x.run cfg with ⟨r, cfg'⟩
  cases r with
  | ok a => rfl
  | error stop => rfl

theorem emits_pure (a : α) : Emits card cpu (pure a) [] (.ok a) := fun _ ↦ rfl

theorem emits_throw (stop : Stop) : Emits card cpu (throw stop : Walk α) [] (.error stop) := fun _ ↦ rfl

theorem Emits.bind (hx : Emits card cpu x nodes (.ok a)) (hf : Emits card cpu (f a) nodes' r) :
    Emits card cpu (x >>= f) (nodes ++ nodes') r := by
  intro cfg
  rw [run_bind, hx cfg, reread_append]
  exact hf _

theorem Emits.bind_error (hx : Emits card cpu x nodes (.error stop)) :
    Emits card cpu (x >>= f) nodes (.error stop) := by
  intro cfg
  rw [run_bind, hx cfg]

theorem emits_parse (h : parsesBlkDevs node = true) : Emits card cpu (parse card cpu node) [node] (.ok ()) := by
  intro cfg
  rw [parse, h]
  rfl

end Emits

/-! ## One list -/

/-- The names are those of ascending numbers. -/
def SortedIds (cs : List (String × Ptree)) : Prop :=
  ∃ ids : List ℕ, cs.map (fun c ↦ extractBlockDevId c.1) = ids.map some ∧ ids.Pairwise (· < ·)

/-- There is a name that is scanned as the number. -/
def Has (dev : ℕ) (cs : List (String × Ptree)) : Prop := ∃ c ∈ cs, extractBlockDevId c.1 = some dev

/-- There is the name of the device. -/
def Named (dev : ℕ) (cs : List (String × Ptree)) : Prop := ∃ c ∈ cs, c.1 = getBlockDevNameFromId dev

/-- The list with the new device. -/
def insertDev (dev : ℕ) : List (String × Ptree) → List (String × Ptree)
  | [] => [newBlkDev dev]
  | c :: cs =>
    if (extractBlockDevId c.1).any (· < dev) then c :: insertDev dev cs
    else newBlkDev dev :: if extractBlockDevId c.1 = some dev then cs else c :: cs

def insertInto (dev : ℕ) (list : Ptree) : Ptree := .node "" (insertDev dev list.children)

section Lists

variable {card cpu dev : ℕ} {node : Ptree} {c e : String × Ptree} {cs new : List (String × Ptree)}

theorem sortedIds_cons_iff : SortedIds (c :: cs) ↔
    ∃ id, extractBlockDevId c.1 = some id ∧ (∀ e ∈ cs, ∃ id', extractBlockDevId e.1 = some id' ∧ id < id') ∧
      SortedIds cs := by
  constructor
  · rintro ⟨ids, hids, hsorted⟩
    cases ids with
    | nil => cases hids
    | cons id ids =>
      obtain ⟨hid, hids⟩ := List.cons.inj hids
      obtain ⟨hlt, hsorted⟩ := List.pairwise_cons.mp hsorted
      refine ⟨id, hid, ?_, ids, hids, hsorted⟩
      intro e he
      have hmem : extractBlockDevId e.1 ∈ ids.map some := by
        rw [← hids]
        exact List.mem_map_of_mem he
      obtain ⟨id', hid', heq⟩ := List.mem_map.mp hmem
      exact ⟨id', heq.symm, hlt id' hid'⟩
  · rintro ⟨id, hid, hlt, ids, hids, hsorted⟩
    refine ⟨id :: ids, by rw [List.map_cons, List.map_cons, hid, hids], List.pairwise_cons.mpr ⟨?_, hsorted⟩⟩
    intro id' hid'
    have hmem : some id' ∈ cs.map fun c ↦ extractBlockDevId c.1 := by
      rw [hids]
      exact List.mem_map_of_mem hid'
    obtain ⟨e, he, heq⟩ := List.mem_map.mp hmem
    obtain ⟨id'', hid'', hlt'⟩ := hlt e he
    rwa [Option.some_inj.mp (heq.symm.trans hid'')]

theorem sortedIds_nil : SortedIds [] := ⟨[], rfl, List.Pairwise.nil⟩

theorem name_ne_of_id (hdev : dev < maxBlkDevs) {id : ℕ} (hid : extractBlockDevId c.1 = some id) (hne : id ≠ dev) :
    c.1 ≠ getBlockDevNameFromId dev := by
  intro hname
  rw [hname, extractBlockDevId_name hdev] at hid
  exact hne (Option.some_inj.mp hid).symm

theorem Named.has (hdev : dev < maxBlkDevs) (h : Named dev cs) : Has dev cs := by
  obtain ⟨c, hc, hname⟩ := h
  exact ⟨c, hc, by rw [hname, extractBlockDevId_name hdev]⟩

theorem emits_added (hdev : dev < maxBlkDevs)
    (hcs : ∀ e ∈ cs, ∃ id, extractBlockDevId e.1 = some id ∧ dev < id) :
    Emits card cpu (addLoop card cpu dev node cs new true >>= addLast card cpu dev node) []
      (.ok (.node "" (new ++ cs))) := by
  induction cs generalizing new with
  | nil =>
    rw [List.append_nil]
    exact fun _ ↦ rfl
  | cons c cs ih =>
    obtain ⟨id, hid, hlt⟩ := hcs c List.mem_cons_self
    have htail := @ih (new ++ [c]) fun e he ↦ hcs e (List.mem_cons_of_mem c he)
    rw [addLoop, hid]
    dsimp only
    rw [if_neg (name_ne_of_id hdev hid hlt.ne'), if_neg hlt.asymm, if_pos hlt, if_pos rfl]
    rwa [List.append_assoc, List.singleton_append] at htail

theorem emits_first (hdev : dev < maxBlkDevs) (hnode : parsesBlkDevs node = true)
    (hcs : ∀ e ∈ cs, ∃ id, extractBlockDevId e.1 = some id ∧ dev < id) :
    Emits card cpu (addLoop card cpu dev node cs new false >>= addLast card cpu dev node) [node]
      (.ok (.node "" (new ++ newBlkDev dev :: cs))) := by
  cases cs with
  | nil =>
    have hlast : Emits card cpu (addLast card cpu dev node (new, false)) [node]
        (.ok (.node "" (new ++ [newBlkDev dev]))) :=
      (emits_parse hnode).bind (emits_pure _)
    exact (emits_pure (new, false)).bind hlast
  | cons c cs =>
    obtain ⟨id, hid, hlt⟩ := hcs c List.mem_cons_self
    rw [addLoop, hid]
    dsimp only
    rw [if_neg (name_ne_of_id hdev hid hlt.ne'), if_neg hlt.asymm, if_pos hlt, if_neg Bool.false_ne_true, bind_assoc]
    have hadded := @emits_added card cpu dev node cs (new ++ [newBlkDev dev, c]) hdev
      fun e he ↦ hcs e (List.mem_cons_of_mem c he)
    rw [List.append_assoc] at hadded
    exact (emits_parse hnode).bind hadded

/-- A list that has the name ends the walk before anything is read. -/
theorem emits_named (hdev : dev < maxBlkDevs) (hsorted : SortedIds cs) (hnamed : Named dev cs) :
    Emits card cpu (addLoop card cpu dev node cs new false >>= addLast card cpu dev node) []
      (.error (.returns true)) := by
  induction cs generalizing new with
  | nil =>
    obtain ⟨c, hc, -⟩ := hnamed
    exact absurd hc List.not_mem_nil
  | cons c cs ih =>
    obtain ⟨id, hid, hlt, hsorted⟩ := sortedIds_cons_iff.mp hsorted
    rw [addLoop, hid]
    dsimp only
    by_cases hname : c.1 = getBlockDevNameFromId dev
    · rw [if_pos hname]
      exact (emits_throw (.returns true)).bind_error
    · -- the name is further down the list, so this number is smaller
      obtain ⟨e, he, hename⟩ := hnamed
      have hmem : e ∈ cs := by
        rcases List.mem_cons.mp he with rfl | hmem
        · exact absurd hename hname
        · exact hmem
      obtain ⟨id', hid', hlt'⟩ := hlt e hmem
      rw [hename, extractBlockDevId_name hdev] at hid'
      obtain rfl := Option.some_inj.mp hid'
      rw [if_neg hname, if_pos hlt']
      exact ih hsorted ⟨e, hmem, hename⟩

theorem emits_insertDev (hdev : dev < maxBlkDevs) (hnode : parsesBlkDevs node = true) (hsorted : SortedIds cs)
    (hnamed : ¬ Named dev cs) :
    Emits card cpu (addLoop card cpu dev node cs new false >>= addLast card cpu dev node) [node]
      (.ok (.node "" (new ++ insertDev dev cs))) := by
  induction cs generalizing new with
  | nil => exact emits_first hdev hnode fun e he ↦ absurd he List.not_mem_nil
  | cons c cs ih =>
    obtain ⟨id, hid, hlt, hsorted'⟩ := sortedIds_cons_iff.mp hsorted
    have hname : c.1 ≠ getBlockDevNameFromId dev := fun h ↦ hnamed ⟨c, List.mem_cons_self, h⟩
    have hnamed' : ¬ Named dev cs := fun ⟨e, he, h⟩ ↦ hnamed ⟨e, List.mem_cons_of_mem c he, h⟩
    rw [insertDev, hid, Option.any_some]
    rcases Nat.lt_trichotomy id dev with hless | rfl | hmore
    · have htail := @ih (new ++ [c]) hsorted' hnamed'
      rw [if_pos (decide_eq_true hless), addLoop, hid]
      dsimp only
      rw [if_neg hname, if_pos hless]
      rwa [List.append_assoc, List.singleton_append] at htail
    · -- the number with another name: the element is dropped
      have hdrop := @emits_first card cpu id node cs new hdev hnode fun e he ↦ hlt e he
      rw [if_neg (by simp), if_pos rfl, addLoop, hid]
      dsimp only
      rwa [if_neg hname, if_neg (Nat.lt_irrefl id), if_neg (Nat.lt_irrefl id)]
    · have hne : ¬ some id = some dev := fun h ↦ hmore.ne' (Option.some_inj.mp h)
      rw [if_neg (by simpa using hmore.le), if_neg hne]
      apply emits_first hdev hnode
      intro e he
      rcases List.mem_cons.mp he with rfl | he
      · exact ⟨id, hid, hmore⟩
      · obtain ⟨id', hid', hlt'⟩ := hlt e he
        exact ⟨id', hid', hmore.trans hlt'⟩

theorem newBlkDev_mem (dev : ℕ) (cs : List (String × Ptree)) : newBlkDev dev ∈ insertDev dev cs := by
  induction cs with
  | nil => exact List.mem_singleton_self _
  | cons c cs ih =>
    rw [insertDev]
    split_ifs
    · exact List.mem_cons_of_mem c ih
    · exact List.mem_cons_self
    · exact List.mem_cons_self

theorem named_insertInto (dev : ℕ) (list : Ptree) : Named dev (insertInto dev list).children :=
  ⟨newBlkDev dev, newBlkDev_mem dev list.children, rfl⟩

/-- The new list has the device, and the elements with other numbers. -/
theorem mem_insertDev_iff (hsorted : SortedIds cs) :
    e ∈ insertDev dev cs ↔ e = newBlkDev dev ∨ (e ∈ cs ∧ extractBlockDevId e.1 ≠ some dev) := by
  induction cs with
  | nil =>
    rw [insertDev, List.mem_singleton]
    exact ⟨.inl, fun h ↦ h.resolve_right fun hmem ↦ absurd hmem.1 List.not_mem_nil⟩
  | cons c cs ih =>
    obtain ⟨id, hid, hlt, hsorted'⟩ := sortedIds_cons_iff.mp hsorted
    have hrest (hle : dev ≤ id) : ∀ e ∈ cs, extractBlockDevId e.1 ≠ some dev := by
      intro e he heq
      obtain ⟨id', hid', hlt'⟩ := hlt e he
      have : id' = dev := Option.some_inj.mp (hid'.symm.trans heq)
      omega
    rw [insertDev, hid, Option.any_some]
    rcases Nat.lt_trichotomy id dev with hless | rfl | hmore
    · rw [if_pos (decide_eq_true hless), List.mem_cons, ih hsorted', List.mem_cons]
      constructor
      · rintro (rfl | rfl | ⟨hmem, hne⟩)
        · exact .inr ⟨.inl rfl, by rw [hid]; exact fun h ↦ hless.ne (Option.some_inj.mp h)⟩
        · exact .inl rfl
        · exact .inr ⟨.inr hmem, hne⟩
      · rintro (rfl | ⟨rfl | hmem, hne⟩)
        · exact .inr (.inl rfl)
        · exact .inl rfl
        · exact .inr (.inr ⟨hmem, hne⟩)
    · rw [if_neg (by simp), if_pos rfl, List.mem_cons, List.mem_cons]
      constructor
      · rintro (rfl | hmem)
        · exact .inl rfl
        · exact .inr ⟨.inr hmem, hrest le_rfl e hmem⟩
      · rintro (rfl | ⟨rfl | hmem, hne⟩)
        · exact .inl rfl
        · exact absurd hid hne
        · exact .inr hmem
    · have hne : ¬ some id = some dev := fun h ↦ hmore.ne' (Option.some_inj.mp h)
      rw [if_neg (by simpa using hmore.le), if_neg hne, List.mem_cons, List.mem_cons]
      constructor
      · rintro (rfl | rfl | hmem)
        · exact .inl rfl
        · exact .inr ⟨.inl rfl, by rwa [hid]⟩
        · exact .inr ⟨.inr hmem, hrest hmore.le e hmem⟩
      · rintro (rfl | ⟨hmem, -⟩)
        · exact .inl rfl
        · exact .inr hmem

theorem sortedIds_insertDev (hdev : dev < maxBlkDevs) (hsorted : SortedIds cs) : SortedIds (insertDev dev cs) := by
  have hnew : extractBlockDevId (newBlkDev dev).1 = some dev := extractBlockDevId_name hdev
  induction cs with
  | nil =>
    exact sortedIds_cons_iff.mpr ⟨dev, hnew, fun e he ↦ absurd he List.not_mem_nil, sortedIds_nil⟩
  | cons c cs ih =>
    obtain ⟨id, hid, hlt, hsorted'⟩ := sortedIds_cons_iff.mp hsorted
    rw [insertDev, hid, Option.any_some]
    rcases Nat.lt_trichotomy id dev with hless | rfl | hmore
    · rw [if_pos (decide_eq_true hless)]
      refine sortedIds_cons_iff.mpr ⟨id, hid, ?_, ih hsorted'⟩
      intro e he
      rcases (mem_insertDev_iff hsorted').mp he with rfl | ⟨hmem, -⟩
      · exact ⟨dev, hnew, hless⟩
      · exact hlt e hmem
    · rw [if_neg (by simp), if_pos rfl]
      exact sortedIds_cons_iff.mpr ⟨id, hnew, hlt, hsorted'⟩
    · have hne : ¬ some id = some dev := fun h ↦ hmore.ne' (Option.some_inj.mp h)
      rw [if_neg (by simpa using hmore.le), if_neg hne]
      refine sortedIds_cons_iff.mpr ⟨dev, hnew, ?_, hsorted⟩
      intro e he
      rcases List.mem_cons.mp he with rfl | he
      · exact ⟨id, hid, hmore⟩
      · obtain ⟨id', hid', hlt'⟩ := hlt e he
        exact ⟨id', hid', hmore.trans hlt'⟩

/-- What had the number and not the name is lost. -/
theorem insertDev_keeps_iff (hsorted : SortedIds cs) (hnamed : ¬ Named dev cs) :
    (∀ e ∈ cs, e ∈ insertDev dev cs) ↔ ¬ Has dev cs := by
  constructor
  · rintro hkeeps ⟨e, he, hid⟩
    rcases (mem_insertDev_iff hsorted).mp (hkeeps e he) with rfl | ⟨-, hne⟩
    · exact hnamed ⟨_, he, rfl⟩
    · exact hne hid
  · intro hhas e he
    exact (mem_insertDev_iff hsorted).mpr (.inr ⟨he, fun hid ↦ hhas ⟨e, he, hid⟩⟩)

end Lists

/-! ## All lists -/

/-- The children of a name. -/
def kidsOf (name : String) (cs : List (String × Ptree)) : List Ptree := (cs.filter fun c ↦ c.1 = name).map Prod.snd

/-- The number of an element, as the writer reads it. -/
def isId (id : ℕ) (t : Ptree) : Bool :=
  match hasId id t with
  | .ok b => b
  | .error _ => false

/-- The CPUs of the number on the cards of the number. -/
def cpusOf (card cpu : ℕ) (root : Ptree) : List Ptree :=
  ((kidsOf "card" root.children).filter (isId card)).flatMap fun c ↦ (kidsOf "cpu" c.children).filter (isId cpu)

/-- The lists of block devices of these CPUs. -/
def lists (card cpu : ℕ) (root : Ptree) : List Ptree :=
  (cpusOf card cpu root).flatMap fun d ↦ kidsOf "block-devs" d.children

/-- Some children of a name are changed. -/
def updKids (name : String) (p : Ptree → Bool) (f : Ptree → Ptree) (t : Ptree) : Ptree :=
  t.withChildren (t.children.map fun c ↦ if c.1 = name ∧ p c.2 then (c.1, f c.2) else c)

/-- The tree with the new device in every list. -/
def added (card cpu dev : ℕ) (root : Ptree) : Ptree :=
  updKids "card" (isId card)
    (updKids "cpu" (isId cpu) (updKids "block-devs" (fun _ ↦ true) (insertInto dev))) root

/-- The visits to the lists of a CPU: what the CPU is at the time, and the list. -/
def visitLists (dev : ℕ) (t : Ptree) : List (String × Ptree) → List (String × Ptree) → List (Ptree × Ptree)
  | _, [] => []
  | done, c :: cs =>
    if c.1 = "block-devs" then
      (t.withChildren (done ++ c :: cs), c.2) :: visitLists dev t (done ++ [(c.1, insertInto dev c.2)]) cs
    else visitLists dev t (done ++ [c]) cs

def visits (card cpu dev : ℕ) (root : Ptree) : List (Ptree × Ptree) :=
  (cpusOf card cpu root).flatMap fun d ↦ visitLists dev d [] d.children

/-- A walk over some lists: it reads the CPU for each of them and gives the result, or it stops, where a list has
the name of the device or at a fault, and has read the CPUs of the lists before. -/
inductive Walks {α : Type} (card cpu dev : ℕ) (x : Walk α) (vs : List (Ptree × Ptree)) (a : α) : Prop
  | ok (hnone : ∀ v ∈ vs, ¬ Named dev v.2.children) (h : Emits card cpu x (vs.map Prod.fst) (.ok a))
  | stops (pre post : List (Ptree × Ptree)) (stop : Stop) (hvs : vs = pre ++ post)
      (hnone : ∀ v ∈ pre, ¬ Named dev v.2.children) (h : Emits card cpu x (pre.map Prod.fst) (.error stop))
      (hstop : (stop = .returns true ∧ ∃ v ∈ post.head?, Named dev v.2.children) ∨ ∃ fault, stop = .throws fault)

section Walks

variable {α β : Type} {card cpu dev id : ℕ} {x : Walk α} {f : α → Walk β} {a : α} {b : β} {vs vs' : List (Ptree × Ptree)}
  {t root : Ptree} {name : String} {c : String × Ptree} {cs done : List (String × Ptree)}

theorem walks_pure (a : α) : Walks card cpu dev (pure a) [] a :=
  .ok (fun _ hv ↦ absurd hv List.not_mem_nil) (emits_pure a)

theorem walks_throws (fault : Fault) (vs : List (Ptree × Ptree)) (a : α) :
    Walks card cpu dev (throw (.throws fault)) vs a :=
  .stops [] vs _ rfl (fun _ hv ↦ absurd hv List.not_mem_nil) (emits_throw _) (.inr ⟨fault, rfl⟩)

theorem Walks.bind (hx : Walks card cpu dev x vs a) (hf : Walks card cpu dev (f a) vs' b) :
    Walks card cpu dev (x >>= f) (vs ++ vs') b := by
  cases hx with
  | ok hnone h =>
    cases hf with
    | ok hnone' h' =>
      apply Walks.ok
      · intro v hv
        rcases List.mem_append.mp hv with hv | hv
        · exact hnone v hv
        · exact hnone' v hv
      · rw [List.map_append]
        exact h.bind h'
    | stops pre post stop hvs hnone' h' hstop =>
      refine .stops (vs ++ pre) post stop (by rw [hvs, List.append_assoc]) ?_ ?_ hstop
      · intro v hv
        rcases List.mem_append.mp hv with hv | hv
        · exact hnone v hv
        · exact hnone' v hv
      · rw [List.map_append]
        exact h.bind h'
  | stops pre post stop hvs hnone h hstop =>
    refine .stops pre (post ++ vs') stop (by rw [hvs, List.append_assoc]) hnone h.bind_error ?_
    rcases hstop with ⟨rfl, v, hv, hnamed⟩ | hfault
    · refine .inl ⟨rfl, v, ?_, hnamed⟩
      rw [List.head?_append, Option.mem_def.mp hv]
      rfl
    · exact .inr hfault

theorem kidsOf_cons (name : String) (c : String × Ptree) (cs : List (String × Ptree)) :
    kidsOf name (c :: cs) = if c.1 = name then c.2 :: kidsOf name cs else kidsOf name cs := by
  rw [kidsOf, List.filter_cons]
  by_cases h : c.1 = name
  · rw [if_pos (by simpa using h), if_pos h]
    rfl
  · rw [if_neg (by simpa using h), if_neg h]
    rfl

theorem parsesBlkDevs_of_mem (h : ("block-devs", root) ∈ t.children) : parsesBlkDevs t = true := by
  rw [parsesBlkDevs, Ptree.getChild, Option.isSome_map, List.find?_isSome]
  exact ⟨("block-devs", root), h, decide_eq_true rfl⟩

theorem walks_addToList (hdev : dev < maxBlkDevs) {node list : Ptree} (hnode : parsesBlkDevs node = true)
    (hsorted : SortedIds list.children) :
    Walks card cpu dev (addToList card cpu dev node list) [(node, list)] (insertInto dev list) := by
  by_cases hnamed : Named dev list.children
  · exact .stops [] [(node, list)] _ rfl (fun _ hv ↦ absurd hv List.not_mem_nil) (emits_named hdev hsorted hnamed)
      (.inl ⟨rfl, (node, list), rfl, hnamed⟩)
  · apply Walks.ok
    · intro v hv
      rwa [List.mem_singleton.mp hv]
    · exact emits_insertDev hdev hnode hsorted hnamed

theorem walks_addToLists (hdev : dev < maxBlkDevs)
    (hsorted : ∀ l ∈ kidsOf "block-devs" cs, SortedIds l.children) :
    Walks card cpu dev (addToLists card cpu dev t done cs) (visitLists dev t done cs)
      (done ++ cs.map fun c ↦ if c.1 = "block-devs" ∧ true = true then (c.1, insertInto dev c.2) else c) := by
  induction cs generalizing done with
  | nil =>
    rw [List.map_nil, List.append_nil]
    exact walks_pure done
  | cons c cs ih =>
    rw [kidsOf_cons] at hsorted
    rw [addToLists, visitLists, List.map_cons]
    by_cases hc : c.1 = "block-devs"
    · rw [if_pos hc] at hsorted
      rw [if_pos hc, if_pos hc, if_pos ⟨hc, rfl⟩, List.append_cons done (c.1, insertInto dev c.2) (List.map _ cs)]
      have hmem : ("block-devs", c.2) ∈ (t.withChildren (done ++ c :: cs)).children := by
        rw [← hc]
        exact List.mem_append_right done List.mem_cons_self
      have hlist := @walks_addToList card cpu dev hdev _ _ (parsesBlkDevs_of_mem hmem) (hsorted c.2 List.mem_cons_self)
      exact hlist.bind (ih fun l hl ↦ hsorted l (List.mem_cons_of_mem c.2 hl))
    · rw [if_neg hc] at hsorted
      rw [if_neg hc, if_neg hc, if_neg fun h ↦ hc h.1, List.append_cons done c (List.map _ cs)]
      exact ih hsorted

theorem walks_addToCpu (hdev : dev < maxBlkDevs)
    (hsorted : ∀ l ∈ kidsOf "block-devs" t.children, SortedIds l.children) :
    Walks card cpu dev (addToCpu card cpu dev t) (visitLists dev t [] t.children)
      (updKids "block-devs" (fun _ ↦ true) (insertInto dev) t) := by
  rw [← List.append_nil (visitLists dev t [] t.children)]
  exact (walks_addToLists hdev hsorted).bind (walks_pure _)

theorem walks_walkIds {body : Ptree → Walk Ptree} {vis : Ptree → List (Ptree × Ptree)} {g : Ptree → Ptree}
    (h : ∀ t ∈ (kidsOf name cs).filter (isId id), Walks card cpu dev (body t) (vis t) (g t)) :
    Walks card cpu dev (walkIds name id body cs) (((kidsOf name cs).filter (isId id)).flatMap vis)
      (cs.map fun c ↦ if c.1 = name ∧ isId id c.2 then (c.1, g c.2) else c) := by
  induction cs with
  | nil => exact walks_pure []
  | cons c cs ih =>
    -- what is left after this child, whatever has become of it
    have htail (hcs : ∀ t ∈ (kidsOf name cs).filter (isId id), Walks card cpu dev (body t) (vis t) (g t)) (u : Ptree) :
        Walks card cpu dev (walkIds name id body cs >>= fun cs' ↦ pure ((c.1, u) :: cs'))
          (((kidsOf name cs).filter (isId id)).flatMap vis)
          ((c.1, u) :: cs.map fun c ↦ if c.1 = name ∧ isId id c.2 then (c.1, g c.2) else c) := by
      rw [← List.append_nil (((kidsOf name cs).filter (isId id)).flatMap vis)]
      exact (ih hcs).bind (walks_pure _)
    rw [kidsOf_cons] at h ⊢
    rw [walkIds, List.map_cons]
    by_cases hc : c.1 = name
    · rw [if_pos hc] at h ⊢
      rw [if_pos hc, List.filter_cons]
      rw [List.filter_cons] at h
      cases hid : hasId id c.2 with
      | error fault =>
        have hnot : isId id c.2 = false := by rw [isId, hid]
        rw [hnot, if_neg Bool.false_ne_true] at h ⊢
        rw [if_neg fun h ↦ Bool.false_ne_true h.2]
        exact (walks_throws fault [] c.2).bind (htail h c.2)
      | ok b =>
        have hb : isId id c.2 = b := by rw [isId, hid]
        rw [hb] at h ⊢
        cases b with
        | true =>
          rw [if_pos rfl] at h ⊢
          rw [if_pos ⟨hc, rfl⟩]
          exact (h c.2 List.mem_cons_self).bind (htail (fun t ht ↦ h t (List.mem_cons_of_mem c.2 ht)) (g c.2))
        | false =>
          rw [if_neg Bool.false_ne_true] at h ⊢
          rw [if_neg fun h ↦ Bool.false_ne_true h.2]
          exact (walks_pure c.2).bind (htail h c.2)
    · rw [if_neg hc] at h ⊢
      rw [if_neg hc, if_neg fun h ↦ hc h.1]
      exact (walks_pure c.2).bind (htail h c.2)

theorem walks_walkChildren {body : Ptree → Walk Ptree} {vis : Ptree → List (Ptree × Ptree)} {g : Ptree → Ptree}
    (h : ∀ u ∈ (kidsOf name t.children).filter (isId id), Walks card cpu dev (body u) (vis u) (g u)) :
    Walks card cpu dev (walkChildren name id body t) (((kidsOf name t.children).filter (isId id)).flatMap vis)
      (updKids name (isId id) g t) := by
  rw [← List.append_nil (List.flatMap _ _)]
  exact (walks_walkIds h).bind (walks_pure _)

theorem walks_addWalk (hdev : dev < maxBlkDevs) (hsorted : ∀ l ∈ lists card cpu root, SortedIds l.children) :
    Walks card cpu dev (addWalk card cpu dev root) (visits card cpu dev root) (added card cpu dev root) := by
  rw [visits, cpusOf, List.flatMap_assoc]
  apply walks_walkChildren
  intro c hc
  apply walks_walkChildren
  intro d hd
  apply walks_addToCpu hdev
  intro l hl
  exact hsorted l (List.mem_flatMap.mpr ⟨d, List.mem_flatMap.mpr ⟨c, hc, hd⟩, hl⟩)

end Walks

/-! ## The tree with the new device -/

section Added

variable {card cpu dev id : ℕ} {t root : Ptree} {name : String} {p : Ptree → Bool} {f : Ptree → Ptree}
  {cs done : List (String × Ptree)}

theorem kidsOf_updKids (name : String) (p : Ptree → Bool) (f : Ptree → Ptree) (t : Ptree) :
    kidsOf name (updKids name p f t).children = (kidsOf name t.children).map fun u ↦ if p u then f u else u := by
  change kidsOf name (t.children.map _) = _
  induction t.children with
  | nil => rfl
  | cons c cs ih =>
    rw [List.map_cons, kidsOf_cons, kidsOf_cons, ih]
    by_cases hc : c.1 = name
    · by_cases hp : p c.2 = true
      · rw [if_pos (And.intro hc hp), if_pos hc, if_pos hc, List.map_cons, if_pos hp]
      · rw [if_neg fun h : c.1 = name ∧ p c.2 = true ↦ hp h.2, if_pos hc, if_pos hc, List.map_cons, if_neg hp]
    · rw [if_neg fun h : c.1 = name ∧ p c.2 = true ↦ hc h.1, if_neg hc, if_neg hc]

theorem isId_updKids (h : Ptree.xmlattr ≠ name) (id : ℕ) : isId id (updKids name p f t) = isId id t := by
  have hfind : ((updKids name p f t).children.find? fun c ↦ c.1 = Ptree.xmlattr) =
      t.children.find? fun c ↦ c.1 = Ptree.xmlattr := by
    change (t.children.map _).find? _ = _
    induction t.children with
    | nil => rfl
    | cons c cs ih =>
      rw [List.map_cons]
      by_cases hc : c.1 = Ptree.xmlattr
      · rw [if_neg fun hn ↦ h (hc.symm.trans hn.1), List.find?_cons_of_pos (by simpa using hc),
          List.find?_cons_of_pos (by simpa using hc)]
      · have hname : ¬ (if c.1 = name ∧ p c.2 = true then (c.1, f c.2) else c).1 = Ptree.xmlattr := by
          split_ifs
          · exact hc
          · exact hc
        rw [List.find?_cons_of_neg (by simpa using hname), List.find?_cons_of_neg (by simpa using hc), ih]
  rw [isId, isId, hasId, hasId, Ptree.attr, Ptree.attr, Ptree.getChild, Ptree.getChild, hfind]

/-- What is changed still has its number, so it is found again. -/
theorem filter_kidsOf_updKids (hp : ∀ u, p (f u) = p u) :
    (kidsOf name (updKids name p f t).children).filter p = ((kidsOf name t.children).filter p).map f := by
  rw [kidsOf_updKids]
  induction kidsOf name t.children with
  | nil => rfl
  | cons u us ih =>
    rw [List.map_cons, List.filter_cons, List.filter_cons, ih]
    by_cases hu : p u = true
    · rw [if_pos hu, if_pos ((hp u).trans hu), if_pos hu]
      rfl
    · rw [if_neg hu, if_neg hu, if_neg hu]

theorem cpusOf_added (card cpu dev : ℕ) (root : Ptree) : cpusOf card cpu (added card cpu dev root) =
    (cpusOf card cpu root).map (updKids "block-devs" (fun _ ↦ true) (insertInto dev)) := by
  rw [cpusOf, added, filter_kidsOf_updKids fun u ↦ isId_updKids (by decide) card, List.flatMap_map, cpusOf,
    List.map_flatMap]
  congr 1
  funext c
  exact filter_kidsOf_updKids fun u ↦ isId_updKids (by decide) cpu

theorem lists_added (card cpu dev : ℕ) (root : Ptree) :
    lists card cpu (added card cpu dev root) = (lists card cpu root).map (insertInto dev) := by
  rw [lists, cpusOf_added, List.flatMap_map, lists, List.map_flatMap]
  congr 1
  funext d
  exact kidsOf_updKids "block-devs" (fun _ ↦ true) (insertInto dev) d

theorem updKids_eq_self (h : ∀ u ∈ kidsOf name t.children, p u = true → f u = u) : updKids name p f t = t := by
  have hmap : (t.children.map fun c ↦ if c.1 = name ∧ p c.2 then (c.1, f c.2) else c) = t.children.map id := by
    apply List.map_congr_left
    intro c hc
    split_ifs with hn
    · have hmem : c.2 ∈ kidsOf name t.children :=
        List.mem_map_of_mem (List.mem_filter.mpr ⟨hc, by simpa using hn.1⟩)
      rw [h c.2 hmem hn.2, id]
    · rfl
  rw [updKids, hmap, List.map_id, Ptree.withChildren_children]

theorem added_eq_self (h : lists card cpu root = []) : added card cpu dev root = root := by
  apply updKids_eq_self
  intro c hc hcard
  apply updKids_eq_self
  intro d hd hcpu
  apply updKids_eq_self
  intro l hl
  have hcpus : d ∈ cpusOf card cpu root :=
    List.mem_flatMap.mpr ⟨c, List.mem_filter.mpr ⟨hc, hcard⟩, List.mem_filter.mpr ⟨hd, hcpu⟩⟩
  have hmem : l ∈ lists card cpu root := List.mem_flatMap.mpr ⟨d, hcpus, hl⟩
  rw [h] at hmem
  exact absurd hmem List.not_mem_nil

theorem added_ne_nil (h : root.children ≠ []) : (added card cpu dev root).children ≠ [] := by
  change root.children.map _ ≠ []
  rwa [Ne, List.map_eq_nil_iff]

theorem visitLists_snd (dev : ℕ) (t : Ptree) (done cs : List (String × Ptree)) :
    (visitLists dev t done cs).map Prod.snd = kidsOf "block-devs" cs := by
  induction cs generalizing done with
  | nil => rfl
  | cons c cs ih =>
    rw [visitLists, kidsOf_cons]
    split_ifs
    · rw [List.map_cons, ih]
    · exact ih _

theorem visits_snd (card cpu dev : ℕ) (root : Ptree) :
    (visits card cpu dev root).map Prod.snd = lists card cpu root := by
  rw [visits, List.map_flatMap, lists]
  congr 1
  funext d
  exact visitLists_snd dev d [] d.children

end Added

/-! ## The memory -/

/-- The first list of the CPU has the number. -/
def FirstHas (dev : ℕ) (node : Ptree) : Prop := ∃ l, node.getChild "block-devs" = some l ∧ Has dev l.children

section Memory

variable {card cpu dev i j k : ℕ} {cfg : VcaConfig} {node t : Ptree} {nodes : List Ptree}
  {cs done : List (String × Ptree)} {v : Ptree × Ptree}

theorem exist_foldl_parseBlkChild (cs : List (String × Ptree)) (cfg : VcaConfig) :
    (cs.foldl (parseBlkChild i j k) cfg).exist = cfg.exist := by
  induction cs generalizing cfg with
  | nil => rfl
  | cons c cs ih =>
    rw [List.foldl_cons, ih, parseBlkChild, parseField]
    cases BlkDevField.all.find? fun f ↦ f.dataField.name = c.1 with
    | none => rfl
    | some f => rfl

theorem exist_foldl_parseBlkDev (cs : List (String × Ptree)) (cfg : VcaConfig) :
    (cs.foldl (parseBlkDev card cpu) cfg).exist i j k = true ↔
      cfg.exist i j k = true ∨ (i = card ∧ j = cpu ∧ Has k cs) := by
  induction cs generalizing cfg with
  | nil => exact ⟨.inl, fun h ↦ h.resolve_right fun ⟨_, _, c, hc, _⟩ ↦ absurd hc List.not_mem_nil⟩
  | cons c cs ih =>
    have hone : (parseBlkDev card cpu cfg c).exist i j k = true ↔
        cfg.exist i j k = true ∨ (i = card ∧ j = cpu ∧ extractBlockDevId c.1 = some k) := by
      rw [parseBlkDev]
      cases hid : extractBlockDevId c.1 with
      | none => simp
      | some id =>
        dsimp only
        rw [exist_foldl_parseBlkChild]
        simp only [Bool.or_eq_true, Bool.and_eq_true, decide_eq_true_eq, Option.some_inj, and_assoc]
        rw [or_comm, @eq_comm _ id k]
    have hhas : Has k (c :: cs) ↔ extractBlockDevId c.1 = some k ∨ Has k cs :=
      List.exists_mem_cons_iff _ c cs
    rw [List.foldl_cons, ih, hone, hhas, or_assoc, ← and_or_left, ← and_or_left]

theorem exist_parseBlkDevs : (parseBlkDevs card cpu node cfg).exist i j k = true ↔
    cfg.exist i j k = true ∨ (i = card ∧ j = cpu ∧ FirstHas k node) := by
  rw [parseBlkDevs, FirstHas]
  change (match node.getChild "block-devs" with
    | none => cfg
    | some devs => devs.children.foldl (parseBlkDev card cpu) cfg).exist i j k = true ↔ _
  cases node.getChild "block-devs" with
  | none => simp
  | some devs =>
    rw [exist_foldl_parseBlkDev]
    simp

theorem exist_reread : (reread card cpu nodes cfg).exist i j k = true ↔
    cfg.exist i j k = true ∨ (i = card ∧ j = cpu ∧ ∃ node ∈ nodes, FirstHas k node) := by
  induction nodes generalizing cfg with
  | nil => simp [reread]
  | cons node nodes ih =>
    change (reread card cpu nodes (parseBlkDevs card cpu node cfg)).exist i j k = true ↔ _
    rw [ih, exist_parseBlkDevs, List.exists_mem_cons_iff, or_assoc, ← and_or_left, ← and_or_left]

theorem gives_reread (nodes : List Ptree) (field : Field) : ∃ ds, Gives (reread card cpu nodes) field ds := by
  induction nodes with
  | nil => exact ⟨[], gives_id⟩
  | cons node nodes ih =>
    obtain ⟨ds, hds⟩ := ih
    have hnode : ∃ ds, Gives (parseBlkDevs card cpu node) field ds := by
      by_cases hfield : ∃ dev f, field = .blk card cpu dev f
      · obtain ⟨dev, f, rfl⟩ := hfield
        exact ⟨_, gives_blkDevs card cpu dev f node⟩
      · exact ⟨[], gives_blkDevs_other (fun dev f h ↦ hfield ⟨dev, f, h⟩) node⟩
    obtain ⟨ds', hds'⟩ := hnode
    exact ⟨ds' ++ ds, hds'.comp hds⟩

theorem reread_reread (nodes : List Ptree) (cfg : VcaConfig) :
    reread card cpu nodes (reread card cpu nodes cfg) = reread card cpu nodes cfg := by
  have hfields : (reread card cpu nodes (reread card cpu nodes cfg)).fields = (reread card cpu nodes cfg).fields := by
    funext field
    obtain ⟨ds, hds⟩ := @gives_reread card cpu nodes field
    rw [hds, hds, settle_settle]
  have hexist : (reread card cpu nodes (reread card cpu nodes cfg)).exist = (reread card cpu nodes cfg).exist := by
    funext i j k
    rw [Bool.eq_iff_iff, exist_reread, exist_reread, or_assoc, or_self]
  generalize reread card cpu nodes (reread card cpu nodes cfg) = c at hfields hexist ⊢
  generalize reread card cpu nodes cfg = c' at hfields hexist ⊢
  cases c
  cases c'
  dsimp only at hfields hexist
  rw [hfields, hexist]

theorem getChild_eq_head? (t : Ptree) (name : String) : t.getChild name = (kidsOf name t.children).head? := by
  rw [Ptree.getChild, kidsOf, List.head?_map, List.head?_filter]

theorem kidsOf_append (name : String) (cs cs' : List (String × Ptree)) :
    kidsOf name (cs ++ cs') = kidsOf name cs ++ kidsOf name cs' := by
  rw [kidsOf, List.filter_append, List.map_append]
  rfl

theorem kidsOf_concat (name : String) (cs : List (String × Ptree)) (c : String × Ptree) :
    kidsOf name (cs ++ [c]) = kidsOf name cs ++ if c.1 = name then [c.2] else [] := by
  rw [kidsOf_append, kidsOf_cons]
  rfl

/-- The CPU is read while the list that is visited is the old one, but the lists before are new. -/
theorem firstHas_visit_iff {c : String × Ptree} (hc : c.1 = "block-devs") :
    FirstHas dev (t.withChildren (done ++ c :: cs)) ↔
      match (kidsOf "block-devs" done).head? with
      | none => Has dev c.2.children
      | some l => Has dev l.children := by
  have hhead : (t.withChildren (done ++ c :: cs)).getChild "block-devs" =
      (kidsOf "block-devs" done ++ c.2 :: kidsOf "block-devs" cs).head? := by
    rw [getChild_eq_head?]
    change (kidsOf "block-devs" (done ++ c :: cs)).head? = _
    rw [kidsOf_append, kidsOf_cons, if_pos hc]
  rw [FirstHas, hhead, List.head?_append]
  cases (kidsOf "block-devs" done).head? with
  | none => simp
  | some l => simp

theorem firstHas_of_visit (hdev : dev < maxBlkDevs) (hv : v ∈ visitLists dev t done cs)
    (hdone : ∀ l ∈ kidsOf "block-devs" done, Has dev l.children)
    (h : kidsOf "block-devs" done ≠ [] ∨ Has dev v.2.children) : FirstHas dev v.1 := by
  induction cs generalizing done with
  | nil => exact absurd hv List.not_mem_nil
  | cons c cs ih =>
    rw [visitLists] at hv
    by_cases hc : c.1 = "block-devs"
    · rw [if_pos hc] at hv
      rcases List.mem_cons.mp hv with rfl | hv
      · rw [firstHas_visit_iff hc]
        cases hhead : (kidsOf "block-devs" done).head? with
        | none => exact h.resolve_left fun hne ↦ hne (List.head?_eq_none_iff.mp hhead)
        | some l => exact hdone l (List.mem_of_head? hhead)
      · have hkids : kidsOf "block-devs" (done ++ [(c.1, insertInto dev c.2)]) =
            kidsOf "block-devs" done ++ [insertInto dev c.2] := by
          rw [kidsOf_concat, if_pos hc]
        -- what is left is visited with one more new list before it
        apply ih hv
        · rw [hkids]
          intro l hl
          rcases List.mem_append.mp hl with hl | hl
          · exact hdone l hl
          · rw [List.mem_singleton.mp hl]
            exact (named_insertInto dev c.2).has hdev
        · rw [hkids]
          exact .inl (List.append_ne_nil_of_right_ne_nil _ (List.cons_ne_nil _ _))
    · rw [if_neg hc] at hv
      have hkids : kidsOf "block-devs" (done ++ [c]) = kidsOf "block-devs" done := by
        rw [kidsOf_concat, if_neg hc, List.append_nil]
      exact ih hv (by rwa [hkids]) (by rwa [hkids])

/-- Where no list has the number, it is read once a CPU has a second list. -/
theorem exists_firstHas_visitLists_iff (hdev : dev < maxBlkDevs) (hdone : kidsOf "block-devs" done = [])
    (hcs : ∀ l ∈ kidsOf "block-devs" cs, ¬ Has dev l.children) :
    (∃ v ∈ visitLists dev t done cs, FirstHas dev v.1) ↔ 2 ≤ (kidsOf "block-devs" cs).length := by
  induction cs generalizing done with
  | nil => simp [visitLists, kidsOf]
  | cons c cs ih =>
    rw [kidsOf_cons] at hcs ⊢
    rw [visitLists]
    by_cases hc : c.1 = "block-devs"
    · rw [if_pos hc] at hcs ⊢
      rw [if_pos hc, List.exists_mem_cons_iff, firstHas_visit_iff hc, hdone, List.length_cons]
      have hkids : kidsOf "block-devs" (done ++ [(c.1, insertInto dev c.2)]) = [insertInto dev c.2] := by
        rw [kidsOf_concat, hdone, if_pos hc, List.nil_append]
      -- from here on the first list of the CPU is a new one
      have hrest : ∀ v ∈ visitLists dev t (done ++ [(c.1, insertInto dev c.2)]) cs, FirstHas dev v.1 := by
        intro v hv
        apply firstHas_of_visit hdev hv
        · rw [hkids]
          intro l hl
          rw [List.mem_singleton.mp hl]
          exact (named_insertInto dev c.2).has hdev
        · rw [hkids]
          exact .inl (List.cons_ne_nil _ _)
      have hsnd := visitLists_snd dev t (done ++ [(c.1, insertInto dev c.2)]) cs
      constructor
      · rintro (hhas | ⟨v, hv, -⟩)
        · exact absurd hhas (hcs c.2 List.mem_cons_self)
        · have hmem : v.2 ∈ kidsOf "block-devs" cs := by
            rw [← hsnd]
            exact List.mem_map_of_mem hv
          have hpos := List.length_pos_of_mem hmem
          omega
      · intro hlen
        have hpos : 0 < (visitLists dev t (done ++ [(c.1, insertInto dev c.2)]) cs).length := by
          rw [← List.length_map Prod.snd, hsnd]
          omega
        obtain ⟨v, hv⟩ := List.exists_mem_of_length_pos hpos
        exact .inr ⟨v, hv, hrest v hv⟩
    · rw [if_neg hc] at hcs ⊢
      rw [if_neg hc]
      apply ih _ hcs
      rw [kidsOf_concat, hdone, if_neg hc, List.nil_append]

theorem exists_firstHas_visits_iff (hdev : dev < maxBlkDevs) (hhas : ∀ l ∈ lists card cpu t, ¬ Has dev l.children) :
    (∃ v ∈ visits card cpu dev t, FirstHas dev v.1) ↔
      ∃ d ∈ cpusOf card cpu t, 2 ≤ (kidsOf "block-devs" d.children).length := by
  have hcpu : ∀ d ∈ cpusOf card cpu t, (∃ v ∈ visitLists dev d [] d.children, FirstHas dev v.1) ↔
      2 ≤ (kidsOf "block-devs" d.children).length := by
    intro d hd
    apply exists_firstHas_visitLists_iff hdev rfl
    intro l hl
    exact hhas l (List.mem_flatMap.mpr ⟨d, hd, hl⟩)
  constructor
  · rintro ⟨v, hv, hfirst⟩
    obtain ⟨d, hd, hv⟩ := List.mem_flatMap.mp hv
    exact ⟨d, hd, (hcpu d hd).mp ⟨v, hv, hfirst⟩⟩
  · rintro ⟨d, hd, hlen⟩
    obtain ⟨v, hv, hfirst⟩ := (hcpu d hd).mpr hlen
    exact ⟨v, List.mem_flatMap.mpr ⟨d, hd, hv⟩, hfirst⟩

/-- Where all lists have the number, it is read at every visit. -/
theorem firstHas_of_mem_visits (hdev : dev < maxBlkDevs) (hv : v ∈ visits card cpu dev t)
    (hhas : Has dev v.2.children) : FirstHas dev v.1 := by
  obtain ⟨d, -, hv⟩ := List.mem_flatMap.mp hv
  exact firstHas_of_visit hdev hv (fun l hl ↦ absurd hl List.not_mem_nil) (.inr hhas)

end Memory

/-! ## A call -/

/-- The elements that were in a list are in it. -/
def Keeps (list list' : Ptree) : Prop := ∀ e ∈ list.children, e ∈ list'.children

/-- What adding a device is to achieve: it is in every list of the file, the lists are sorted and have kept their
elements; the same call again changes nothing; and the memory knows the device. -/
structure AddsDevice (env : Env) (card cpu dev : ℕ) (file : Ptree) (call : Call) : Prop where
  added : ∀ root, loadVcaXml call.file = some root →
    ∀ l ∈ lists card cpu root, Has dev l.children ∧ SortedIds l.children
  kept : ∀ root root', loadVcaXml file = some root → loadVcaXml call.file = some root' →
    List.Forall₂ Keeps (lists card cpu root) (lists card cpu root')
  again : (addBlkDevFields env card cpu dev call.file call.cfg).file = call.file ∧
    (addBlkDevFields env card cpu dev call.file call.cfg).cfg = call.cfg
  known : blkDevExist call.cfg card cpu dev = true

/-- Either the walk stops at the first list that has the name: then all lists have the number, and the memory knew
the device or the first list spells it in another way. Or no list has the number: then the memory knew the device
or a CPU has two lists. -/
def Suits (card cpu dev : ℕ) (root : Ptree) (known : Bool) : Prop :=
  ((∃ l ∈ lists card cpu root, Named dev l.children) ∧ (∀ l ∈ lists card cpu root, Has dev l.children) ∧
    (known = true ∨ ∀ l ∈ (lists card cpu root).head?, ¬ Named dev l.children)) ∨
  ((∀ l ∈ lists card cpu root, ¬ Has dev l.children) ∧
    (known = true ∨ ∃ d ∈ cpusOf card cpu root, 2 ≤ (kidsOf "block-devs" d.children).length))

section Call

variable {env : Env} {card cpu dev : ℕ} {file file' root root' : Ptree} {cfg : VcaConfig} {nodes : List Ptree}

theorem blkDevExist_iff (hdev : dev < maxBlkDevs) :
    blkDevExist cfg card cpu dev = true ↔ cfg.exist card cpu dev = true := by
  rw [blkDevExist, decide_eq_true hdev, Bool.true_and]

theorem call_eq (hlock : env.lock = true) (hload : loadVcaXml file = some root) {r : Except Stop Ptree}
    (h : Emits card cpu (addWalk card cpu dev root) nodes r) (cfg : VcaConfig) :
    addBlkDevFields env card cpu dev file cfg = .ofWalk env file (r, reread card cpu nodes cfg) := by
  rw [addBlkDevFields, if_neg (by rw [hlock]; decide), hload]
  dsimp only
  rw [h cfg]

theorem loadVcaXml_saved (h : root.children ≠ []) : loadVcaXml (.node "" [(vcaConfigHeader, root)]) = some root := by
  have hne : root.children.isEmpty = false := List.isEmpty_eq_false_iff.mpr h
  rw [loadVcaXml, Ptree.getChild]
  change (some root).bind _ = _
  rw [Option.bind_some, hne, if_neg Bool.false_ne_true]

/-- What ends a walk early leaves the file. -/
theorem call_of_stop (hlock : env.lock = true) (hload : loadVcaXml file = some root) {stop : Stop}
    (h : Emits card cpu (addWalk card cpu dev root) nodes (.error stop)) (cfg : VcaConfig) :
    (addBlkDevFields env card cpu dev file cfg).file = file ∧
      (addBlkDevFields env card cpu dev file cfg).cfg = reread card cpu nodes cfg := by
  rw [call_eq hlock hload h]
  cases stop with
  | returns value => exact ⟨rfl, rfl⟩
  | throws fault => cases fault <;> exact ⟨rfl, rfl⟩

theorem mem_lists_of_visit {v : Ptree × Ptree} (hv : v ∈ visits card cpu dev root) : v.2 ∈ lists card cpu root := by
  rw [← visits_snd card cpu dev root]
  exact List.mem_map_of_mem hv

theorem sorted_added (hdev : dev < maxBlkDevs) (hsorted : ∀ l ∈ lists card cpu root, SortedIds l.children) :
    ∀ l ∈ lists card cpu (added card cpu dev root), Named dev l.children ∧ SortedIds l.children := by
  intro l hl
  rw [lists_added] at hl
  obtain ⟨l', hl', rfl⟩ := List.mem_map.mp hl
  exact ⟨named_insertInto dev l', sortedIds_insertDev hdev (hsorted l' hl')⟩

/-- Once the device is in every list, a call changes nothing. -/
theorem call_again (hdev : dev < maxBlkDevs) (hlock : env.lock = true) (hwrite : env.write = true)
    (hsorted : ∀ l ∈ lists card cpu root, Named dev l.children ∧ SortedIds l.children) (hne : root.children ≠ [])
    (cfg : VcaConfig) :
    (addBlkDevFields env card cpu dev (.node "" [(vcaConfigHeader, root)]) cfg).file =
        .node "" [(vcaConfigHeader, root)] ∧
      (addBlkDevFields env card cpu dev (.node "" [(vcaConfigHeader, root)]) cfg).cfg = cfg := by
  have hload := loadVcaXml_saved hne
  cases walks_addWalk hdev fun l hl ↦ (hsorted l hl).2 with
  | ok hnone h =>
    -- no list is without the name, so there is no list at all
    have hnil : lists card cpu root = [] := by
      apply List.eq_nil_iff_forall_not_mem.mpr
      intro l hl
      have hmem := hl
      rw [← visits_snd card cpu dev root] at hmem
      obtain ⟨v, hv, rfl⟩ := List.mem_map.mp hmem
      exact hnone v hv (hsorted v.2 hl).1
    have hvisits : visits card cpu dev root = [] := by
      rw [← List.map_eq_nil_iff, visits_snd, hnil]
    rw [hvisits] at h
    rw [call_eq hlock hload h, added_eq_self hnil, Call.ofWalk, saveVcaXml, if_pos hwrite]
    exact ⟨rfl, rfl⟩
  | stops pre post stop hvs hnone h hstop =>
    have hnil : pre = [] := by
      apply List.eq_nil_iff_forall_not_mem.mpr
      intro v hv
      have hmem : v ∈ visits card cpu dev root := by
        rw [hvs]
        exact List.mem_append_left post hv
      exact hnone v hv (hsorted v.2 (mem_lists_of_visit hmem)).1
    rw [hnil] at h
    exact call_of_stop hlock hload h cfg

theorem addsDevice_of_ok (hdev : dev < maxBlkDevs) (hlock : env.lock = true) (hwrite : env.write = true)
    (hload : loadVcaXml file = some root) (hsorted : ∀ l ∈ lists card cpu root, SortedIds l.children)
    (hnone : ∀ v ∈ visits card cpu dev root, ¬ Named dev v.2.children) :
    AddsDevice env card cpu dev file ⟨.node "" [(vcaConfigHeader, added card cpu dev root)],
        reread card cpu ((visits card cpu dev root).map Prod.fst) cfg, .ok true⟩ ↔
      Suits card cpu dev root (cfg.exist card cpu dev) := by
  have hunnamed : ∀ l ∈ lists card cpu root, ¬ Named dev l.children := by
    intro l hl
    rw [← visits_snd card cpu dev root] at hl
    obtain ⟨v, hv, rfl⟩ := List.mem_map.mp hl
    exact hnone v hv
  have hsaved := loadVcaXml_saved (@added_ne_nil card cpu dev root (loadVcaXml_eq_some hload))
  have hkept : List.Forall₂ Keeps (lists card cpu root) (lists card cpu (added card cpu dev root)) ↔
      ∀ l ∈ lists card cpu root, ¬ Has dev l.children := by
    rw [lists_added, List.forall₂_map_right_iff, List.forall₂_same]
    exact forall₂_congr fun l hl ↦ insertDev_keeps_iff (hsorted l hl) (hunnamed l hl)
  -- the memory, in a file none of whose lists has the number
  have hknown (hhas : ∀ l ∈ lists card cpu root, ¬ Has dev l.children) :
      blkDevExist (reread card cpu ((visits card cpu dev root).map Prod.fst) cfg) card cpu dev = true ↔
        cfg.exist card cpu dev = true ∨
          ∃ d ∈ cpusOf card cpu root, 2 ≤ (kidsOf "block-devs" d.children).length := by
    rw [blkDevExist_iff hdev, exist_reread, ← exists_firstHas_visits_iff hdev hhas]
    simp
  constructor
  · intro h
    have hhas := hkept.mp (h.kept root _ hload hsaved)
    exact .inr ⟨hhas, (hknown hhas).mp h.known⟩
  · rintro (⟨⟨l, hl, hnamed⟩, -, -⟩ | ⟨hhas, hmem⟩)
    · exact absurd hnamed (hunnamed l hl)
    · refine ⟨?_, ?_, ?_, (hknown hhas).mpr hmem⟩
      · intro r hr l hl
        obtain rfl := Option.some_inj.mp (hsaved.symm.trans hr)
        obtain ⟨hnamed, hids⟩ := sorted_added hdev hsorted l hl
        exact ⟨hnamed.has hdev, hids⟩
      · intro r r' hr hr'
        obtain rfl := Option.some_inj.mp (hload.symm.trans hr)
        obtain rfl := Option.some_inj.mp (hsaved.symm.trans hr')
        exact hkept.mpr hhas
      · exact call_again hdev hlock hwrite (sorted_added hdev hsorted) (added_ne_nil (loadVcaXml_eq_some hload)) _

theorem addsDevice_of_stops {pre post : List (Ptree × Ptree)} {v : Ptree × Ptree} (hdev : dev < maxBlkDevs)
    (hlock : env.lock = true) (hload : loadVcaXml file = some root)
    (hsorted : ∀ l ∈ lists card cpu root, SortedIds l.children) (hvs : visits card cpu dev root = pre ++ post)
    (hnone : ∀ v ∈ pre, ¬ Named dev v.2.children) (hv : v ∈ post.head?) (hnamed : Named dev v.2.children)
    (h : Emits card cpu (addWalk card cpu dev root) (pre.map Prod.fst) (.error (.returns true))) :
    AddsDevice env card cpu dev file ⟨file, reread card cpu (pre.map Prod.fst) cfg, .ok true⟩ ↔
      Suits card cpu dev root (cfg.exist card cpu dev) := by
  have hvmem : v ∈ visits card cpu dev root := by
    rw [hvs]
    exact List.mem_append_right pre (List.mem_of_mem_head? hv)
  have hlist := mem_lists_of_visit hvmem
  -- the memory, in a file all of whose lists have the number
  have hknown (hhas : ∀ l ∈ lists card cpu root, Has dev l.children) :
      blkDevExist (reread card cpu (pre.map Prod.fst) cfg) card cpu dev = true ↔
        cfg.exist card cpu dev = true ∨ ∀ l ∈ (lists card cpu root).head?, ¬ Named dev l.children := by
    rw [blkDevExist_iff hdev, exist_reread, ← visits_snd card cpu dev root, hvs]
    cases pre with
    | nil =>
      -- nothing was read before the walk stopped
      have hhead : v.2 ∈ (post.map Prod.snd).head? := by
        rw [List.head?_map, Option.mem_def.mp hv]
        rfl
      constructor
      · rintro (hexist | ⟨-, -, node, hnode, -⟩)
        · exact .inl hexist
        · exact absurd hnode List.not_mem_nil
      · rintro (hexist | hunnamed)
        · exact .inl hexist
        · exact absurd hnamed (hunnamed v.2 hhead)
    | cons w pre =>
      -- the first list has the number in another spelling, and was read
      have hw : w ∈ visits card cpu dev root := by
        rw [hvs]
        exact List.mem_cons_self
      constructor
      · intro
        right
        intro l hl
        obtain rfl := Option.some_inj.mp hl
        exact hnone w List.mem_cons_self
      · intro
        exact .inr ⟨rfl, rfl, w.1, List.mem_cons_self, firstHas_of_mem_visits hdev hw (hhas w.2 (mem_lists_of_visit hw))⟩
  constructor
  · intro hadds
    have hhas : ∀ l ∈ lists card cpu root, Has dev l.children := fun l hl ↦ (hadds.added root hload l hl).1
    exact .inl ⟨⟨v.2, hlist, hnamed⟩, hhas, (hknown hhas).mp hadds.known⟩
  · rintro (⟨-, hhas, hmem⟩ | ⟨hnot, -⟩)
    · refine ⟨?_, ?_, ?_, (hknown hhas).mpr hmem⟩
      · intro r hr l hl
        obtain rfl := Option.some_inj.mp (hload.symm.trans hr)
        exact ⟨hhas l hl, hsorted l hl⟩
      · intro r r' hr hr'
        obtain rfl := Option.some_inj.mp (hr.symm.trans hr')
        exact List.forall₂_same.mpr fun l _ e he ↦ he
      · obtain ⟨hfile, hcfg⟩ := call_of_stop hlock hload h (reread card cpu (pre.map Prod.fst) cfg)
        exact ⟨hfile, hcfg.trans (reread_reread _ cfg)⟩
    · exact absurd (hnamed.has hdev) (hnot v.2 hlist)

/-- **A device is added.** A call that returns `true` achieves it if and only if the file and the memory suit. -/
theorem addBlkDevFields_iff (hdev : dev < maxBlkDevs)
    (hsorted : ∀ root, loadVcaXml file = some root → ∀ l ∈ lists card cpu root, SortedIds l.children)
    (htrue : (addBlkDevFields env card cpu dev file cfg).returns = .ok true) :
    AddsDevice env card cpu dev file (addBlkDevFields env card cpu dev file cfg) ↔
      ∀ root, loadVcaXml file = some root → Suits card cpu dev root (cfg.exist card cpu dev) := by
  cases hlock : env.lock with
  | false =>
    rw [addBlkDevFields, if_pos (by rw [hlock]; rfl)] at htrue
    cases htrue
  | true =>
    cases hload : loadVcaXml file with
    | none =>
      rw [addBlkDevFields, if_neg (by rw [hlock]; decide), hload] at htrue
      cases htrue
    | some root =>
      have hroot : (∀ r, some root = some r → Suits card cpu dev r (cfg.exist card cpu dev)) ↔
          Suits card cpu dev root (cfg.exist card cpu dev) := by
        constructor
        · intro h
          exact h root rfl
        · intro h r hr
          rwa [← Option.some_inj.mp hr]
      rw [hroot]
      cases walks_addWalk hdev (hsorted root hload) with
      | ok hnone h =>
        rw [call_eq hlock hload h] at htrue ⊢
        rw [Call.ofWalk, saveVcaXml] at htrue ⊢
        cases hwrite : env.write with
        | false =>
          rw [hwrite, if_neg Bool.false_ne_true] at htrue
          cases htrue
        | true =>
          rw [if_pos rfl]
          exact addsDevice_of_ok hdev hlock hwrite hload (hsorted root hload) hnone
      | stops pre post stop hvs hnone h hstop =>
        rw [call_eq hlock hload h] at htrue ⊢
        rcases hstop with ⟨rfl, v, hv, hnamed⟩ | ⟨fault, rfl⟩
        · exact addsDevice_of_stops hdev hlock hload (hsorted root hload) hvs hnone hv hnamed h
        · cases fault with
          | badPath => cases htrue
          | badData => cases htrue

end Call

/-- One CPU, with a list of devices. -/
def blkFile (names : List String) : Ptree :=
  .node "" [(vcaConfigHeader, .node "" [
    ("global", .node "" []),
    ("card", .node "" [
      (Ptree.xmlattr, .node "" [("type", .node "16" []), ("id", .node "0" [])]),
      ("cpu", .node "" [
        (Ptree.xmlattr, .node "" [("id", .node "0" [])]),
        ("block-devs", .node "" (names.map fun name ↦ (name, .node "" [])))])])])]

/-- The memory after the file was read. -/
def blkCfg (names : List String) : VcaConfig := (getVcaConfigFromFile fpgaEnv (blkFile names) .init).1

theorem sorted_blkFile : ∀ root, loadVcaXml (blkFile ["vcablk0"]) = some root →
    ∀ l ∈ lists 0 0 root, SortedIds l.children := by
  intro root hroot l hl
  obtain rfl := Option.some_inj.mp hroot
  obtain rfl : l = .node "" [("vcablk0", .node "" [])] := List.mem_singleton.mp hl
  exact ⟨[0], by decide, by decide⟩

/-- The memory has read the device from an earlier file. -/
theorem known_device_added : AddsDevice fpgaEnv 0 0 1 (blkFile ["vcablk0"])
    (addBlkDevFields fpgaEnv 0 0 1 (blkFile ["vcablk0"]) (blkCfg ["vcablk1"])) := by
  apply (addBlkDevFields_iff (by decide) sorted_blkFile (by decide)).mpr
  intro root hroot
  obtain rfl := Option.some_inj.mp hroot
  right
  constructor
  · intro l hl
    obtain rfl : l = .node "" [("vcablk0", .node "" [])] := List.mem_singleton.mp hl
    rintro ⟨c, hc, hid⟩
    obtain rfl := List.mem_singleton.mp hc
    exact absurd hid (by decide)
  · exact .inl (by decide)

/-- Otherwise the device is in the file, and the memory does not know it: what it has read is the old list. -/
theorem new_device_unknown : (∀ root, loadVcaXml (blkFile ["vcablk0"]) = some root →
      ∀ l ∈ lists 0 0 root, SortedIds l.children) ∧
    (addBlkDevFields fpgaEnv 0 0 1 (blkFile ["vcablk0"]) (blkCfg ["vcablk0"])).returns = .ok true ∧
      ¬ AddsDevice fpgaEnv 0 0 1 (blkFile ["vcablk0"])
        (addBlkDevFields fpgaEnv 0 0 1 (blkFile ["vcablk0"]) (blkCfg ["vcablk0"])) := by
  refine ⟨sorted_blkFile, by decide, ?_⟩
  intro h
  exact absurd h.known (by decide)

end Vcass.Config
