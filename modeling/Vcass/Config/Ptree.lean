import Mathlib.Data.List.Basic

/-!
# Property trees

The configuration file is an XML document, which is read into and written from a tree whose nodes have a text
and named children, in the order of the document. The attributes of an element are the children of a child
called `<xmlattr>`.

The writing functions are loops over the children of a node that change some of them and may throw: a path
that does not exist, or a text that is not a number, ends the whole walk.
-/

namespace Vcass.Config

/-- `boost::property_tree::ptree`. -/
inductive Ptree
  | node (data : String) (children : List (String × Ptree))

/-- What a walk over a tree may throw. -/
inductive Fault
  /-- `ptree_bad_path`. -/
  | badPath
  /-- `ptree_bad_data`. -/
  | badData
  deriving DecidableEq, Repr

namespace Ptree

def data : Ptree → String
  | node data _ => data

def children : Ptree → List (String × Ptree)
  | node _ children => children

def withData (t : Ptree) (data : String) : Ptree := node data t.children

def withChildren (t : Ptree) (children : List (String × Ptree)) : Ptree := node t.data children

theorem withChildren_children (t : Ptree) : t.withChildren t.children = t := by
  cases t with
  | node data children => rfl

/-- The first child of the name. -/
def getChild (t : Ptree) (name : String) : Option Ptree := (t.children.find? fun c ↦ c.1 = name).map Prod.snd

def xmlattr : String := "<xmlattr>"

/-- The text of an attribute. -/
def attr (t : Ptree) (name : String) : Option String :=
  (t.getChild xmlattr).bind fun a ↦ (a.getChild name).map data

/-- The texts of the children of the name. -/
def datas (t : Ptree) (name : String) : List String := (t.children.filter fun c ↦ c.1 = name).map fun c ↦ c.2.data

end Ptree

/-! ## Changing a tree -/

/-- The first child of the name is changed, if there is one. -/
def updFirst (name : String) (f : Ptree → Ptree) : List (String × Ptree) → List (String × Ptree)
  | [] => []
  | (n, t) :: cs => if n = name then (n, f t) :: cs else (n, t) :: updFirst name f cs

/-- A child of the name is changed if it passes the test. -/
def visitChild (name : String) (test : Ptree → Except Fault Bool) (body : Ptree → Except Fault Ptree)
    (c : String × Ptree) : Except Fault Ptree :=
  if c.1 = name then do
    if ← test c.2 then body c.2 else pure c.2
  else pure c.2

/-- A loop over the children. -/
def visit (name : String) (test : Ptree → Except Fault Bool) (body : Ptree → Except Fault Ptree) :
    List (String × Ptree) → Except Fault (List (String × Ptree))
  | [] => .ok []
  | c :: cs => do
    let t ← visitChild name test body c
    let cs' ← visit name test body cs
    pure ((c.1, t) :: cs')

/-- The same, for the children of a node. -/
def visitChildren (name : String) (test : Ptree → Except Fault Bool) (body : Ptree → Except Fault Ptree)
    (t : Ptree) : Except Fault Ptree := do
  let cs ← visit name test body t.children
  pure (t.withChildren cs)

section Lemmas

variable {name other : String} {f : Ptree → Ptree} {t t' : Ptree} {cs cs' : List (String × Ptree)}
  {test : Ptree → Except Fault Bool} {body : Ptree → Except Fault Ptree}

theorem find?_updFirst (h : other ≠ name) :
    (updFirst name f cs).find? (fun c ↦ c.1 = other) = cs.find? fun c ↦ c.1 = other := by
  induction cs with
  | nil => rfl
  | cons c cs ih =>
    obtain ⟨n, t⟩ := c
    rw [updFirst]
    split_ifs with hn
    · have hne : n ≠ other := fun heq ↦ h (heq.symm.trans hn)
      rw [List.find?_cons_of_neg (by simpa using hne), List.find?_cons_of_neg (by simpa using hne)]
    · rw [List.find?_cons, List.find?_cons, ih]

/-- Attributes are safe from a change of another child. -/
theorem attr_updFirst (h : Ptree.xmlattr ≠ name) (key : String) :
    (t.withChildren (updFirst name f t.children)).attr key = t.attr key := by
  rw [Ptree.attr, Ptree.attr, Ptree.getChild, Ptree.getChild]
  show (((updFirst name f t.children).find? _).map Prod.snd).bind _ = _
  rw [find?_updFirst h]

theorem bind_eq_ok {α β : Type} {x : Except Fault α} {k : α → Except Fault β} {b : β} (h : x >>= k = .ok b) :
    ∃ a, x = .ok a ∧ k a = .ok b := by
  cases x with
  | error e => cases h
  | ok a => exact ⟨a, rfl, h⟩

/-- What becomes of a child. -/
def Visited (name : String) (test : Ptree → Except Fault Bool) (body : Ptree → Except Fault Ptree)
    (c : String × Ptree) (t' : Ptree) : Prop :=
  if c.1 = name then (test c.2 = .ok true ∧ body c.2 = .ok t') ∨ (test c.2 = .ok false ∧ t' = c.2)
  else t' = c.2

theorem visit_cons {c : String × Ptree} (h : visit name test body (c :: cs) = .ok cs') :
    ∃ t' rest, cs' = (c.1, t') :: rest ∧ visit name test body cs = .ok rest ∧ Visited name test body c t' := by
  rw [visit] at h
  obtain ⟨t', ht', h⟩ := bind_eq_ok h
  obtain ⟨rest, hrest, h⟩ := bind_eq_ok h
  refine ⟨t', rest, (Except.ok.inj h).symm, hrest, ?_⟩
  rw [visitChild] at ht'
  rw [Visited]
  by_cases hn : c.1 = name
  · rw [if_pos hn] at ht'
    rw [if_pos hn]
    obtain ⟨b, hb, ht'⟩ := bind_eq_ok ht'
    cases b with
    | true => exact .inl ⟨hb, ht'⟩
    | false => exact .inr ⟨hb, (Except.ok.inj ht').symm⟩
  · rw [if_neg hn] at ht'
    rw [if_neg hn]
    exact (Except.ok.inj ht').symm

theorem mem_of_visit {c' : String × Ptree} (hcs : visit name test body cs = .ok cs') (hc : c' ∈ cs') :
    ∃ c ∈ cs, c.1 = c'.1 ∧ Visited name test body c c'.2 := by
  induction cs generalizing cs' with
  | nil =>
    obtain rfl := Except.ok.inj hcs
    exact absurd hc List.not_mem_nil
  | cons d cs ih =>
    obtain ⟨t', rest, rfl, hrest, hd⟩ := visit_cons hcs
    rcases List.mem_cons.mp hc with rfl | hc
    · exact ⟨d, List.mem_cons_self, rfl, hd⟩
    · obtain ⟨c, hmem, hc⟩ := ih hrest hc
      exact ⟨c, List.mem_cons_of_mem d hmem, hc⟩

/-- What is collected after a loop is known if it is known for one child. -/
theorem visit_flatMap {α : Type} {F G : String × Ptree → List α} (hcs : visit name test body cs = .ok cs')
    (h : ∀ c t', Visited name test body c t' → G (c.1, t') = F c) : cs'.flatMap G = cs.flatMap F := by
  induction cs generalizing cs' with
  | nil =>
    obtain rfl := Except.ok.inj hcs
    rfl
  | cons c cs ih =>
    obtain ⟨t', rest, rfl, hrest, hc⟩ := visit_cons hcs
    rw [List.flatMap_cons, List.flatMap_cons, ih hrest, h c t' hc]

/-- The first child of the name, before and after a loop that passes every test. -/
theorem visit_find? (hcs : visit name (fun _ ↦ .ok true) body cs = .ok cs') :
    (cs.find? (fun c ↦ c.1 = name) = none ∧ cs'.find? (fun c ↦ c.1 = name) = none) ∨
      ∃ c t', cs.find? (fun c ↦ c.1 = name) = some c ∧ body c.2 = .ok t' ∧
        cs'.find? (fun c ↦ c.1 = name) = some (c.1, t') := by
  induction cs generalizing cs' with
  | nil =>
    obtain rfl := Except.ok.inj hcs
    exact .inl ⟨rfl, rfl⟩
  | cons c cs ih =>
    obtain ⟨t', rest, rfl, hrest, hc⟩ := visit_cons hcs
    rw [Visited] at hc
    by_cases hn : c.1 = name
    · rw [if_pos hn] at hc
      rcases hc with ⟨-, hb⟩ | ⟨hfalse, -⟩
      · refine .inr ⟨c, t', ?_, hb, ?_⟩
        · exact List.find?_cons_of_pos (decide_eq_true hn)
        · exact List.find?_cons_of_pos (decide_eq_true hn)
      · cases hfalse
    · rw [List.find?_cons_of_neg (by simpa using hn), List.find?_cons_of_neg (by simpa using hn)]
      exact ih hrest

theorem visit_filter (h : other ≠ name) (hcs : visit name test body cs = .ok cs') :
    (cs'.filter fun c ↦ c.1 = other) = cs.filter fun c ↦ c.1 = other := by
  induction cs generalizing cs' with
  | nil =>
    obtain rfl := Except.ok.inj hcs
    rfl
  | cons c cs ih =>
    obtain ⟨t', rest, rfl, hrest, hc⟩ := visit_cons hcs
    rw [List.filter_cons, List.filter_cons, ih hrest]
    rw [Visited] at hc
    by_cases hn : c.1 = name
    · have hne : ¬ c.1 = other := fun heq ↦ h (heq.symm.trans hn)
      rw [if_neg (by simpa using hne), if_neg (by simpa using hne)]
    · rw [if_neg hn] at hc
      rw [hc]

theorem visitChildren_eq_ok (ht : visitChildren name test body t = .ok t') :
    t'.data = t.data ∧ visit name test body t.children = .ok t'.children := by
  rw [visitChildren] at ht
  obtain ⟨cs, hcs, ht⟩ := bind_eq_ok ht
  obtain rfl := Except.ok.inj ht
  exact ⟨rfl, hcs⟩

theorem attr_visitChildren (h : Ptree.xmlattr ≠ name) (ht : visitChildren name test body t = .ok t')
    (key : String) : t'.attr key = t.attr key := by
  have hfilter := visit_filter h (visitChildren_eq_ok ht).2
  rw [Ptree.attr, Ptree.attr, Ptree.getChild, Ptree.getChild, ← List.head?_filter, ← List.head?_filter, hfilter]

end Lemmas

end Vcass.Config
