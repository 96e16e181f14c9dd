import Vcass.Config.Default
import Vcass.Config.RoundTrip

/-!
# What a write leaves alone

A place in a tree is an address: the index of a child, the index of a child of that, and so on. The writing
functions are loops within loops, each over the children of one name, and what a loop changes is what its body
changes in the children that it visits. So the places that a write changes are known level by level.

The reader takes a card element only if its type is the one of the installed card. The writer does not look at
the type, and a default file has an element for each type under every number.
-/

namespace Vcass.Config

/-! ## Places in a tree -/

namespace Ptree

/-- The text at a place. -/
def textAt : List ℕ → Ptree → Option String
  | [], t => some t.data
  | i :: p, t => t.children[i]?.bind fun c ↦ c.2.textAt p

/-- The names on the way to a place. -/
def namesAt : List ℕ → Ptree → Option (List String)
  | [], _ => some []
  | i :: p, t => t.children[i]?.bind fun c ↦ (c.2.namesAt p).map fun ns ↦ c.1 :: ns

/-- The text at a place is another one. -/
def Changed (t t' : Ptree) (p : List ℕ) : Prop := t'.textAt p ≠ t.textAt p

theorem textAt_cons (t : Ptree) (i : ℕ) (p : List ℕ) :
    t.textAt (i :: p) = t.children[i]?.bind fun c ↦ c.2.textAt p := rfl

theorem not_changed_self (t : Ptree) (p : List ℕ) : ¬ t.Changed t p := fun h ↦ h rfl

theorem changed_cons_iff {t t' : Ptree} {i : ℕ} {p : List ℕ}
    (h : ∀ c, t.children[i]? = some c → ∃ u, t'.children[i]? = some (c.1, u))
    (hnone : t.children[i]? = none → t'.children[i]? = none) :
    t.Changed t' (i :: p) ↔ ∃ c u, t.children[i]? = some c ∧ t'.children[i]? = some (c.1, u) ∧ c.2.Changed u p := by
  rw [Changed, textAt_cons, textAt_cons]
  cases hc : t.children[i]? with
  | none =>
    rw [hnone hc]
    constructor
    · intro hne
      exact absurd rfl hne
    · rintro ⟨c, u, hsome, -⟩
      cases hsome
  | some c =>
    obtain ⟨u, hu⟩ := h c hc
    rw [hu]
    constructor
    · intro hne
      exact ⟨c, u, rfl, rfl, hne⟩
    · rintro ⟨d, v, hd, hv, hne⟩
      obtain rfl := Option.some_inj.mp hd
      obtain rfl := (Prod.mk.inj (Option.some_inj.mp hv)).2
      exact hne

end Ptree

section Loops

variable {name value : String} {t t' : Ptree} {cs cs' : List (String × Ptree)} {i : ℕ} {p : List ℕ}
  {test : Ptree → Except Fault Bool} {body : Ptree → Except Fault Ptree}

/-- A loop keeps the children in their places. -/
theorem visit_getElem? (hcs : visit name test body cs = .ok cs') :
    (∀ c, cs[i]? = some c → ∃ u, cs'[i]? = some (c.1, u) ∧ Visited name test body c u) ∧
      (cs[i]? = none → cs'[i]? = none) := by
  induction cs generalizing cs' i with
  | nil =>
    obtain rfl := Except.ok.inj hcs
    constructor
    · intro c hc
      cases hc
    · intro
      rfl
  | cons d cs ih =>
    obtain ⟨t', rest, rfl, hrest, hd⟩ := visit_cons hcs
    cases i with
    | zero =>
      constructor
      · intro c hc
        obtain rfl := Option.some_inj.mp hc
        exact ⟨t', rfl, hd⟩
      · intro hnone
        cases hnone
    | succ i => exact ih hrest

theorem Visited.of_changed {c : String × Ptree} {u : Ptree} (hc : Visited name test body c u)
    (hchanged : c.2.Changed u p) : c.1 = name ∧ test c.2 = .ok true ∧ body c.2 = .ok u := by
  rw [Visited] at hc
  split_ifs at hc with hname
  · rcases hc with ⟨htest, hbody⟩ | ⟨-, rfl⟩
    · exact ⟨hname, htest, hbody⟩
    · exact absurd hchanged (Ptree.not_changed_self _ p)
  · subst hc
    exact absurd hchanged (Ptree.not_changed_self _ p)

theorem visitChildren_changed_iff (ht : visitChildren name test body t = .ok t') :
    t.Changed t' p ↔ ∃ i q c u, p = i :: q ∧ t.children[i]? = some (name, c) ∧ test c = .ok true ∧
      body c = .ok u ∧ c.Changed u q := by
  obtain ⟨hdata, hcs⟩ := visitChildren_eq_ok ht
  cases p with
  | nil =>
    constructor
    · intro hne
      exact absurd (congrArg some hdata) hne
    · rintro ⟨i, q, c, u, hnil, -⟩
      cases hnil
  | cons i q =>
    obtain ⟨hget, hnone⟩ := visit_getElem? (i := i) hcs
    rw [Ptree.changed_cons_iff (fun c hc ↦ (hget c hc).imp fun _ h ↦ h.1) hnone]
    constructor
    · rintro ⟨⟨n, c⟩, u, hc, hu, hchanged⟩
      obtain ⟨v, hv, hvisited⟩ := hget (n, c) hc
      obtain rfl := (Prod.mk.inj (Option.some_inj.mp (hv.symm.trans hu))).2
      obtain ⟨rfl, htest, hbody⟩ := hvisited.of_changed hchanged
      exact ⟨i, q, c, v, rfl, hc, htest, hbody, hchanged⟩
    · rintro ⟨j, r, c, u, hp, hc, htest, hbody, hchanged⟩
      obtain ⟨rfl, rfl⟩ := List.cons.inj hp
      obtain ⟨v, hv, hvisited⟩ := hget (name, c) hc
      refine ⟨(name, c), v, hc, hv, ?_⟩
      rw [Visited, if_pos rfl] at hvisited
      rcases hvisited with ⟨-, hbody'⟩ | ⟨hfalse, -⟩
      · rwa [Except.ok.inj (hbody'.symm.trans hbody)]
      · cases htest.symm.trans hfalse

theorem visitChildren_body (ht : visitChildren name test body t = .ok t') {c : Ptree}
    (hc : t.children[i]? = some (name, c)) (htest : test c = .ok true) : ∃ u, body c = .ok u := by
  obtain ⟨u, -, hvisited⟩ := (visit_getElem? (visitChildren_eq_ok ht).2).1 (name, c) hc
  rw [Visited, if_pos rfl] at hvisited
  rcases hvisited with ⟨-, hbody⟩ | ⟨hfalse, -⟩
  · exact ⟨u, hbody⟩
  · cases htest.symm.trans hfalse

end Loops

/-! ## Writing along names -/

/-- The loops of a write: the first child of the last name is set, in every child of the names before. -/
def setAlong (value : String) : List String → Ptree → Except Fault Ptree
  | [], t => .ok t
  | [name], t => .ok (setField name value t)
  | name :: ns, t => visitChildren name (fun _ ↦ .ok true) (setAlong value ns) t

/-- The elements that are set. -/
def targets : List String → Ptree → List Ptree
  | [], _ => []
  | [name], t => (t.getChild name).toList
  | name :: ns, t => (t.children.filter fun c ↦ c.1 = name).flatMap fun c ↦ targets ns c.2

section Along

variable {name value : String} {t t' : Ptree} {ns : List String} {p : List ℕ}

theorem updFirst_eq_set (name : String) (f : Ptree → Ptree) (cs : List (String × Ptree)) :
    (cs.find? (fun c ↦ c.1 = name) = none ∧ updFirst name f cs = cs) ∨
      ∃ i c, cs[i]? = some (name, c) ∧ cs.find? (fun c ↦ c.1 = name) = some (name, c) ∧
        updFirst name f cs = cs.set i (name, f c) := by
  induction cs with
  | nil => exact .inl ⟨rfl, rfl⟩
  | cons d cs ih =>
    obtain ⟨n, u⟩ := d
    rw [updFirst]
    by_cases hn : n = name
    · subst hn
      rw [if_pos rfl, List.find?_cons_of_pos (by simp)]
      exact .inr ⟨0, u, rfl, rfl, rfl⟩
    · rw [if_neg hn, List.find?_cons_of_neg (by simpa using hn)]
      rcases ih with ⟨hfind, hupd⟩ | ⟨i, c, hi, hfind, hupd⟩
      · exact .inl ⟨hfind, by rw [hupd]⟩
      · exact .inr ⟨i + 1, c, hi, hfind, by rw [hupd]; rfl⟩

theorem changed_withData_iff (c : Ptree) : c.Changed (c.withData value) p ↔ p = [] ∧ c.data ≠ value := by
  cases p with
  | nil =>
    constructor
    · intro hne
      exact ⟨rfl, fun heq ↦ hne (congrArg some heq.symm)⟩
    · rintro ⟨-, hne⟩ heq
      exact hne (Option.some_inj.mp heq).symm
  | cons i p =>
    constructor
    · intro hne
      exact absurd rfl hne
    · rintro ⟨hnil, -⟩
      cases hnil

/-- The one place that `setField` may change. -/
theorem setField_changed_iff (name value : String) (t : Ptree) :
    (t.getChild name = none ∧ ∀ p, ¬ t.Changed (setField name value t) p) ∨
      ∃ i c, t.children[i]? = some (name, c) ∧ t.getChild name = some c ∧
        ∀ p, t.Changed (setField name value t) p ↔ p = [i] ∧ c.data ≠ value := by
  rcases updFirst_eq_set name (fun c ↦ c.withData value) t.children with ⟨hfind, hupd⟩ | ⟨i, c, hi, hfind, hupd⟩
  · left
    refine ⟨by rw [Ptree.getChild, hfind]; rfl, ?_⟩
    intro p
    have hself : setField name value t = t := by
      rw [setField, hupd, Ptree.withChildren_children]
    rw [hself]
    exact Ptree.not_changed_self t p
  · right
    refine ⟨i, c, hi, by rw [Ptree.getChild, hfind]; rfl, ?_⟩
    have hchildren : (setField name value t).children = t.children.set i (name, c.withData value) := hupd
    have hlt := (List.getElem?_eq_some_iff.mp hi).1
    intro p
    cases p with
    | nil =>
      constructor
      · intro hne
        exact absurd rfl hne
      · rintro ⟨hnil, -⟩
        cases hnil
    | cons j q =>
      by_cases hij : i = j
      · subst hij
        have hget : (setField name value t).children[i]? = some (name, c.withData value) := by
          rw [hchildren, List.getElem?_set_self hlt]
        rw [Ptree.Changed, Ptree.textAt_cons, Ptree.textAt_cons, hget, hi, List.cons.injEq]
        exact (changed_withData_iff c).trans (and_congr_left' (by rw [eq_self_iff_true, true_and]))
      · have hget : (setField name value t).children[j]? = t.children[j]? := by
          rw [hchildren, List.getElem?_set_ne hij]
        rw [Ptree.Changed, Ptree.textAt_cons, Ptree.textAt_cons, hget]
        constructor
        · intro hne
          exact absurd rfl hne
        · rintro ⟨heq, -⟩
          exact absurd (List.cons.inj heq).1.symm hij

/-- A write changes nothing but what the names lead to. -/
theorem namesAt_of_setAlong (ht : setAlong value ns t = .ok t') (h : t.Changed t' p) : t.namesAt p = some ns := by
  induction ns generalizing t t' p with
  | nil =>
    obtain rfl := Except.ok.inj ht
    exact absurd h (Ptree.not_changed_self t p)
  | cons name ns ih =>
    cases ns with
    | nil =>
      obtain rfl := Except.ok.inj ht
      rcases setField_changed_iff name value t with ⟨-, hnot⟩ | ⟨i, c, hi, -, hiff⟩
      · exact absurd h (hnot p)
      · obtain ⟨rfl, -⟩ := (hiff p).mp h
        rw [Ptree.namesAt, hi]
        rfl
    | cons n ns =>
      obtain ⟨i, q, c, u, rfl, hi, -, hbody, hchanged⟩ := (visitChildren_changed_iff ht).mp h
      rw [Ptree.namesAt, hi]
      change (c.namesAt q).map _ = _
      rw [ih hbody hchanged]
      rfl

/-- A write changes something, unless everything that it sets has the value. -/
theorem exists_changed_setAlong_iff (ht : setAlong value ns t = .ok t') :
    (∃ p, t.Changed t' p) ↔ ∃ e ∈ targets ns t, e.data ≠ value := by
  induction ns generalizing t t' with
  | nil =>
    obtain rfl := Except.ok.inj ht
    constructor
    · rintro ⟨p, h⟩
      exact absurd h (Ptree.not_changed_self t p)
    · rintro ⟨e, he, -⟩
      exact absurd he List.not_mem_nil
  | cons name ns ih =>
    cases ns with
    | nil =>
      obtain rfl := Except.ok.inj ht
      rcases setField_changed_iff name value t with
        ⟨hnone, hnot⟩ | ⟨i, c, hi, hsome, hiff⟩
      · rw [targets, hnone]
        constructor
        · rintro ⟨p, h⟩
          exact absurd h (hnot p)
        · rintro ⟨e, he, -⟩
          cases he
      · rw [targets, hsome]
        constructor
        · rintro ⟨p, h⟩
          exact ⟨c, List.mem_singleton_self c, ((hiff p).mp h).2⟩
        · rintro ⟨e, he, hne⟩
          obtain rfl := List.mem_singleton.mp he
          exact ⟨[i], (hiff [i]).mpr ⟨rfl, hne⟩⟩
    | cons n ns =>
      have htargets : ∀ e, e ∈ targets (name :: n :: ns) t ↔
          ∃ c, (name, c) ∈ t.children ∧ e ∈ targets (n :: ns) c := by
        intro e
        rw [targets, List.mem_flatMap]
        · constructor
          · rintro ⟨⟨n', c⟩, hc, he⟩
            obtain ⟨hmem, hname⟩ := List.mem_filter.mp hc
            obtain rfl : n' = name := by simpa using hname
            exact ⟨c, hmem, he⟩
          · rintro ⟨c, hmem, he⟩
            exact ⟨(name, c), List.mem_filter.mpr ⟨hmem, by simp⟩, he⟩
        · simp
      constructor
      · rintro ⟨p, h⟩
        obtain ⟨i, q, c, u, -, hi, -, hbody, hchanged⟩ := (visitChildren_changed_iff ht).mp h
        obtain ⟨e, he, hne⟩ := (ih hbody).mp ⟨q, hchanged⟩
        exact ⟨e, (htargets e).mpr ⟨c, List.mem_of_getElem? hi, he⟩, hne⟩
      · rintro ⟨e, he, hne⟩
        obtain ⟨c, hmem, he⟩ := (htargets e).mp he
        obtain ⟨i, hi⟩ := List.mem_iff_getElem?.mp hmem
        obtain ⟨u, hu⟩ := visitChildren_body ht hi rfl
        obtain ⟨q, hchanged⟩ := (ih hu).mpr ⟨e, he, hne⟩
        exact ⟨i :: q, (visitChildren_changed_iff ht).mpr ⟨i, q, c, u, rfl, hi, rfl, hu, hchanged⟩⟩

end Along

/-! ## The writes -/

/-- The functions that write a field of a CPU: of the CPU itself, or of one of its block devices. -/
inductive Write
  | cpu (name : String)
  | blk (dev : ℕ) (name : String)

/-- The names from the CPU to the field. -/
def Write.names : Write → List String
  | cpu name => [name]
  | blk dev name => ["block-devs", getBlockDevNameFromId dev, name]

def Write.save (env : Env) (card cpu : ℕ) (value : String) (file : Ptree) : Write → Option Ptree
  | .cpu name => saveCpuField env card cpu name value file
  | .blk dev name => saveBlkField env card cpu dev name value file

/-- A place of the field, in a card and a CPU that the reader takes for the ones with the numbers. -/
def Selected (env : Env) (card cpu : ℕ) (w : Write) (root : Ptree) (p : List ℕ) : Prop :=
  ∃ i j q c d, p = i :: j :: q ∧ root.children[i]? = some ("card", c) ∧ readsCard env card c ∧
    c.children[j]? = some ("cpu", d) ∧ readsId maxCpu cpu d ∧ d.namesAt q = some w.names

/-- Nothing is changed but the field. -/
def Local (env : Env) (card cpu : ℕ) (w : Write) (file file' : Ptree) : Prop :=
  ∀ root root', loadVcaXml file = some root → loadVcaXml file' = some root' →
    ∀ p, root.Changed root' p → Selected env card cpu w root p

/-- Where the writer goes, the reader goes too, or the value is there already. -/
def Harmless (env : Env) (card cpu : ℕ) (w : Write) (value : String) (file : Ptree) : Prop :=
  ∀ root, loadVcaXml file = some root →
    ∀ c, ("card", c) ∈ root.children → hasId card c = .ok true →
      ∀ d, ("cpu", d) ∈ c.children → hasId cpu d = .ok true →
        (readsCard env card c ∧ readsId maxCpu cpu d) ∨ ∀ e ∈ targets w.names d, e.data = value

section Writes

variable {env : Env} {card cpu : ℕ} {w : Write} {value : String} {file file' root root' : Ptree} {p : List ℕ}

theorem Write.save_eq (env : Env) (card cpu : ℕ) (value : String) (file : Ptree) (w : Write) :
    w.save env card cpu value file = saveWith env (forCpus card cpu (setAlong value w.names)) file := by
  cases w with
  | cpu name => rfl
  | blk dev name => rfl

/-- A write loads the file, changes the tree and stores it. -/
theorem Write.save_eq_some (h : w.save env card cpu value file = some file') :
    ∃ root root', loadVcaXml file = some root ∧ loadVcaXml file' = some root' ∧
      forCpus card cpu (setAlong value w.names) root = .ok root' := by
  rw [Write.save_eq] at h
  obtain ⟨-, root, root', hload, hroot, hnew⟩ := saveWith_eq_some
    (fun r r' hr hne ↦ visit_ne_nil hne (visitChildren_eq_ok hr).2) h
  exact ⟨root, root', hload, hnew, hroot⟩

/-- The places that a write changes. -/
theorem forCpus_changed_iff {body : Ptree → Except Fault Ptree} (h : forCpus card cpu body root = .ok root') :
    root.Changed root' p ↔ ∃ i j q c d u, p = i :: j :: q ∧ root.children[i]? = some ("card", c) ∧
      hasId card c = .ok true ∧ c.children[j]? = some ("cpu", d) ∧ hasId cpu d = .ok true ∧ body d = .ok u ∧
      d.Changed u q := by
  constructor
  · intro hp
    obtain ⟨i, r, c, c', rfl, hi, hcard, hc', hr⟩ := (visitChildren_changed_iff h).mp hp
    obtain ⟨j, q, d, u, rfl, hj, hcpu, hu, hq⟩ := (visitChildren_changed_iff hc').mp hr
    exact ⟨i, j, q, c, d, u, rfl, hi, hcard, hj, hcpu, hu, hq⟩
  · rintro ⟨i, j, q, c, d, u, rfl, hi, hcard, hj, hcpu, hu, hq⟩
    obtain ⟨c', hc'⟩ := visitChildren_body h hi hcard
    have hr := (visitChildren_changed_iff hc').mpr ⟨j, q, d, u, rfl, hj, hcpu, hu, hq⟩
    exact (visitChildren_changed_iff h).mpr ⟨i, j :: q, c, c', rfl, hi, hcard, hc', hr⟩

theorem forCpus_body {body : Ptree → Except Fault Ptree} {i j : ℕ} {c d : Ptree}
    (h : forCpus card cpu body root = .ok root') (hi : root.children[i]? = some ("card", c))
    (hcard : hasId card c = .ok true) (hj : c.children[j]? = some ("cpu", d)) (hcpu : hasId cpu d = .ok true) :
    ∃ u, body d = .ok u := by
  obtain ⟨c', hc'⟩ := visitChildren_body h hi hcard
  exact visitChildren_body hc' hj hcpu

/-- **The frame of a write.** It changes nothing but the field of the card and CPU that the reader takes for the
ones with the numbers, if and only if the other CPUs that the writer takes for them have the value already. -/
theorem save_local_iff (h : w.save env card cpu value file = some file') :
    Local env card cpu w file file' ↔ Harmless env card cpu w value file := by
  obtain ⟨root, root', hload, hnew, hroot⟩ := w.save_eq_some h
  constructor
  · intro hlocal r hr c hc hcard d hd hcpu
    obtain rfl := Option.some_inj.mp (hload.symm.trans hr)
    obtain ⟨i, hi⟩ := List.mem_iff_getElem?.mp hc
    obtain ⟨j, hj⟩ := List.mem_iff_getElem?.mp hd
    obtain ⟨u, hu⟩ := forCpus_body hroot hi hcard hj hcpu
    by_contra hnot
    rw [not_or] at hnot
    obtain ⟨hreads, hdiffer⟩ := hnot
    -- an element gets another text, so there is a place in the CPU whose text changes
    have hexists : ∃ e ∈ targets w.names d, e.data ≠ value := by
      by_contra hnone
      exact hdiffer fun e he ↦ by_contra fun hne ↦ hnone ⟨e, he, hne⟩
    obtain ⟨q, hq⟩ := (exists_changed_setAlong_iff hu).mpr hexists
    have hp := (forCpus_changed_iff hroot).mpr ⟨i, j, q, c, d, u, rfl, hi, hcard, hj, hcpu, hu, hq⟩
    obtain ⟨i', j', q', c', d', heq, hi', hcard', hj', hcpu', -⟩ := hlocal root root' hload hnew _ hp
    obtain ⟨hii, heq⟩ := List.cons.inj heq
    obtain ⟨hjj, -⟩ := List.cons.inj heq
    subst hii hjj
    obtain rfl := (Prod.mk.inj (Option.some_inj.mp (hi.symm.trans hi'))).2
    obtain rfl := (Prod.mk.inj (Option.some_inj.mp (hj.symm.trans hj'))).2
    exact hreads ⟨hcard', hcpu'⟩
  · intro hharmless r r' hr hr' p hp
    obtain rfl := Option.some_inj.mp (hload.symm.trans hr)
    obtain rfl := Option.some_inj.mp (hnew.symm.trans hr')
    obtain ⟨i, j, q, c, d, u, rfl, hi, hcard, hj, hcpu, hu, hq⟩ := (forCpus_changed_iff hroot).mp hp
    rcases hharmless root hload c (List.mem_of_getElem? hi) hcard d (List.mem_of_getElem? hj) hcpu with
      ⟨hcard', hcpu'⟩ | hsame
    · exact ⟨i, j, q, c, d, rfl, hi, hcard', hj, hcpu', namesAt_of_setAlong hu hq⟩
    · obtain ⟨e, he, hne⟩ := (exists_changed_setAlong_iff hu).mp ⟨q, hq⟩
      exact absurd (hsame e he) hne

end Writes

theorem save_image_local : Local fpgaEnv 0 0 (.cpu "os-image") (smallFile "" "/a") (smallFile "" "/b") := by
  apply (@save_local_iff fpgaEnv 0 0 (.cpu "os-image") "/b" (smallFile "" "/a") (smallFile "" "/b") rfl).mpr
  intro root hroot c hc hcard d hd hcpu
  obtain rfl := Option.some_inj.mp hroot
  left
  rcases List.mem_cons.mp hc with hc | hc
  · exact absurd (Prod.mk.inj hc).1 (by decide)
  · obtain rfl := (Prod.mk.inj (List.mem_singleton.mp hc)).2
    rcases List.mem_cons.mp hd with hd | hd
    · exact absurd (Prod.mk.inj hd).1 (by decide)
    · obtain rfl := (Prod.mk.inj (List.mem_singleton.mp hd)).2
      exact ⟨by decide, by decide⟩

/-- In the default file, an image for the FPGA card becomes one for every type of card with the number. -/
theorem image_saved_for_every_type :
    ∃ file', (Write.cpu "os-image").save fpgaEnv 0 0 "/b" defaultFile = some file' ∧
      ¬ Local fpgaEnv 0 0 (.cpu "os-image") defaultFile file' := by
  have hrun : ((Write.cpu "os-image").save fpgaEnv 0 0 "/b" defaultFile).map
      (fun f ↦ (loadVcaXml f).map (Ptree.textAt [9, 1, 1])) = some (some (some "/b")) := by decide +kernel
  obtain ⟨file', hsave, hfile'⟩ := Option.map_eq_some_iff.mp hrun
  obtain ⟨root', hroot', htext⟩ := Option.map_eq_some_iff.mp hfile'
  refine ⟨file', hsave, ?_⟩
  intro hlocal
  have hchanged : defaultConfig.Changed root' [9, 1, 1] := by
    rw [Ptree.Changed, htext]
    decide +kernel
  obtain ⟨i, j, q, c, d, hp, hi, hcard, -⟩ := hlocal defaultConfig root' rfl hroot' _ hchanged
  obtain ⟨rfl, -⟩ := List.cons.inj hp
  obtain rfl := (Prod.mk.inj (Option.some_inj.mp hi)).2
  exact absurd hcard (by decide +kernel)

end Vcass.Config
