import Mathlib.Data.Bool.AllAny
import Vcass.Lib.Fields
import Vcass.Vcactl.PowerButton

/-!
# The ancestors in the log of commands

`parent_cmds` walks from the parent of the process that logs up to process 1, and gathers the names of the processes
on the way. From a process it comes to the next one by `/proc/PID/stat`: the fourth word of that file is taken for
the pid of the parent. The second field of the file is the name of the process in parentheses, and nothing is escaped
in it: a name with whitespace moves the other fields, and a process can choose its name.

So the walk is up the process tree if and only if the name of every process on the way has no whitespace, or has the
pid of the parent where the walk looks for it.
-/

namespace Vcass.Vcactl.ParentCmds

open Fields
open Config (isSpace)

/-! ## The code -/

/-- `int_to_string`, of a pid. -/
def pidText (pid : ℕ) : List Char := Nat.toDigits 10 pid

/-- The loop of `read_procfs`: `val` is the word that was read before. -/
def readFields : ℕ → List Char → List Char → List Char
  | 0, val, _ => val
  | fieldNo + 1, _, text =>
    match extract isSpace text with
    | none => []
    | some (val, text) => readFields fieldNo val text

/-- What can be read below `/proc`, by the text of the pid and the name of the file. -/
abbrev Files := List Char → String → Option (List Char)

variable (read : Files)

/-- From a file that cannot be opened nothing is read. -/
def readProcfs (pid : List Char) (file : String) (fieldNo : ℕ) : List Char :=
  readFields fieldNo [] ((read pid file).getD [])

/-- The loop of `parent_cmds`: the pids it visits, and what it returns if it stops. -/
def parentCmdsFrom : ℕ → List Char → List Char → List Char → List (List Char) × Option (List Char)
  | 0, _, _, _ => ([], none)
  | fuel + 1, out, prev, pid =>
    let cmd := readProcfs read pid "comm" 1
    let (out, prev) := if cmd ≠ prev then (cmd ++ ' ' :: out, cmd) else (out, prev)
    let next := readProcfs read pid "stat" 4
    if next = [] ∨ next = ['1'] then ([pid], some out)
    else
      let (visits, result) := parentCmdsFrom fuel out prev next
      (pid :: visits, result)

/-- `parent` is the value of `getppid`. -/
def parentCmds (fuel parent : ℕ) : List (List Char) × Option (List Char) :=
  parentCmdsFrom read fuel [] [] (pidText parent)

/-! ## The process tree -/

/-- What `/proc/PID/stat` says of a process. -/
structure Process where
  /-- The name, as it stands between the parentheses. -/
  comm : List Char
  state : Char
  state_isAlpha : state.isAlpha = true
  ppid : ℕ
  /-- The fields behind the pid of the parent. -/
  rest : List Char

/-- The name in parentheses. -/
def Process.label (q : Process) : List Char := '(' :: (q.comm ++ [')'])

def Process.stat (q : Process) (pid : ℕ) : List Char :=
  pidText pid ++ ' ' :: (q.label ++ ' ' :: ([q.state] ++ ' ' :: (pidText q.ppid ++ ' ' :: q.rest)))

/-- The pids from a process up to process 1, without the last. -/
inductive Ancestry (procs : ℕ → Option Process) : ℕ → List ℕ → Prop
  | root : Ancestry procs 1 []
  | node {p : ℕ} {q : Process} {l : List ℕ} :
      p ≠ 1 → procs p = some q → Ancestry procs q.ppid l → Ancestry procs p (p :: l)

/-- A tree of processes with process 1 at its root. -/
structure ProcessTable where
  procs : ℕ → Option Process
  rooted : ∀ p, (procs p).isSome → ∃ l, Ancestry procs p l

/-- Files that show the processes of a table. -/
structure Procfs (t : ProcessTable) where
  read : Files
  stat : ∀ p q, t.procs p = some q → read (pidText p) "stat" = some (q.stat p)

/-- The walk stops, and has visited the ancestors. -/
def Follows (t : ProcessTable) (parent : ℕ) : Prop :=
  ∃ l fuel out, Ancestry t.procs parent l ∧ parentCmds read fuel parent = (l.map pidText, some out)

/-- The name leaves the pid of the parent the fourth word, or puts a copy of it there. -/
def Framed (q : Process) : Prop :=
  (∀ c ∈ q.comm, isSpace c = false) ∨ (fields isSpace q.label)[2]? = some (pidText q.ppid)

/-! ## Words of a file -/

variable {read} {t : ProcessTable} {p p' : ℕ} {q : Process} {l l' : List ℕ} {c : Char} {pid out prev text : List Char}

theorem readFields_eq (n : ℕ) (val text : List Char) :
    readFields (n + 1) val text = ((fields isSpace text)[n]?).getD [] := by
  induction n generalizing val text with
  | zero =>
    rw [readFields]
    rcases extract_spec isSpace text with ⟨hfields, hnone⟩ | ⟨w, rest, hfields, hsome⟩
    · rw [hnone, hfields]
      rfl
    · rw [hsome, hfields]
      rfl
  | succ n ih =>
    rw [readFields]
    rcases extract_spec isSpace text with ⟨hfields, hnone⟩ | ⟨w, rest, hfields, hsome⟩
    · rw [hnone, hfields]
      rfl
    · rw [hsome, hfields, List.getElem?_cons_succ]
      exact ih w rest

theorem isSpace_pidText (hc : c ∈ pidText p) : isSpace c = false :=
  Config.isSpace_of_isDigit (PowerButton.isDigit_decimal hc)

theorem fields_pidText (p : ℕ) : fields isSpace (pidText p) = [pidText p] :=
  fields_word Nat.toDigits_ne_nil fun _ hc ↦ isSpace_pidText hc

theorem pidText_inj (h : pidText p = pidText p') : p = p' := by
  have hval : Config.digitsVal (pidText p) = Config.digitsVal (pidText p') := congrArg _ h
  rwa [pidText, pidText, PowerButton.digitsVal_toDigits, PowerButton.digitsVal_toDigits] at hval

theorem le_of_isAlpha (h : c.isAlpha = true) : 65 ≤ c.val.toNat := by
  rcases (Bool.or_eq_true _ _).mp h with hupper | hlower
  · exact UInt32.le_iff_toNat_le.mp (of_decide_eq_true hupper).1
  · have hle : 'a'.val ≤ c.val := of_decide_eq_true ((Bool.and_eq_true _ _).mp hlower).1
    exact le_trans (by decide) (UInt32.le_iff_toNat_le.mp hle)

theorem state_ne_pidText (q : Process) (p : ℕ) : [q.state] ≠ pidText p := by
  intro h
  have hdigit : q.state.isDigit = true := PowerButton.isDigit_decimal (h ▸ List.mem_singleton_self _)
  rw [Char.isDigit, Bool.and_eq_true, decide_eq_true_eq, decide_eq_true_eq] at hdigit
  have hhigh : q.state.val.toNat ≤ 57 := UInt32.le_iff_toNat_le.mp hdigit.2
  have hlow := le_of_isAlpha q.state_isAlpha
  omega

theorem fields_stat (q : Process) (p : ℕ) :
    fields isSpace (q.stat p) =
      pidText p :: (fields isSpace q.label ++ [q.state] :: pidText q.ppid :: fields isSpace q.rest) := by
  have hstate : fields isSpace [q.state] = [[q.state]] := by
    apply fields_word (List.cons_ne_nil _ _)
    intro c hc
    obtain rfl := List.mem_singleton.mp hc
    exact Config.isSpace_of_lt (lt_of_lt_of_le (by decide) (le_of_isAlpha q.state_isAlpha))
  have hblank : isSpace ' ' = true := rfl
  rw [Process.stat, fields_append_cons hblank, fields_append_cons hblank, fields_append_cons hblank,
    fields_append_cons hblank, fields_pidText, fields_pidText, hstate]
  rfl

theorem fields_label (h : ∀ c ∈ q.comm, isSpace c = false) : fields isSpace q.label = [q.label] := by
  apply fields_word (List.cons_ne_nil _ _)
  intro c hc
  rcases List.mem_cons.mp hc with rfl | hc
  · rfl
  · rcases List.mem_append.mp hc with hc | hc
    · exact h c hc
    · obtain rfl := List.mem_singleton.mp hc
      rfl

/-- Each of the parentheses is in a word of its own if there is whitespace between them. -/
theorem fields_label_of_space (hc : c ∈ q.comm) (hspace : isSpace c = true) :
    ∃ u v ws, fields isSpace q.label = u :: v :: ws := by
  obtain ⟨a, b, hcomm⟩ := List.append_of_mem hc
  have hlabel : q.label = '(' :: a ++ c :: (b ++ [')']) := by
    rw [Process.label, hcomm, List.append_assoc]
    rfl
  have hopen : fields isSpace ('(' :: a) ≠ [] := fields_ne_nil rfl List.mem_cons_self
  have hclose : fields isSpace (b ++ [')']) ≠ [] :=
    fields_ne_nil rfl (List.mem_append_right b (List.mem_singleton_self ')'))
  rw [hlabel, fields_append_cons hspace]
  obtain ⟨u, us, hu⟩ := List.exists_cons_of_ne_nil hopen
  obtain ⟨v, vs, hv⟩ := List.exists_cons_of_ne_nil hclose
  rw [hu, hv]
  cases us with
  | nil => exact ⟨u, v, vs, rfl⟩
  | cons u' us => exact ⟨u, u', us ++ v :: vs, rfl⟩

/-- The fourth word is the pid of the parent if and only if the name lets it be. -/
theorem fourth_word_iff (q : Process) (p : ℕ) :
    (fields isSpace (q.stat p))[3]? = some (pidText q.ppid) ↔ Framed q := by
  rw [fields_stat, List.getElem?_cons_succ]
  by_cases hcomm : ∀ c ∈ q.comm, isSpace c = false
  · rw [fields_label hcomm]
    exact iff_of_true rfl (.inl hcomm)
  · push Not at hcomm
    obtain ⟨c, hc, hspace⟩ := hcomm
    have hspace : isSpace c = true := by rwa [ne_eq, Bool.not_eq_false] at hspace
    have hframed : Framed q ↔ (fields isSpace q.label)[2]? = some (pidText q.ppid) := by
      apply or_iff_right
      intro h
      rw [h c hc] at hspace
      cases hspace
    obtain ⟨u, v, ws, hlabel⟩ := fields_label_of_space hc hspace
    rw [hframed, hlabel]
    cases ws with
    | nil =>
      -- The third of the words is the state.
      apply iff_of_false
      · intro h
        exact state_ne_pidText q _ (Option.some.inj h)
      · intro h
        cases h
    | cons w ws => exact Iff.rfl

variable {fs : Procfs t}

theorem readProcfs_stat (hq : t.procs p = some q) :
    readProcfs fs.read (pidText p) "stat" 4 = ((fields isSpace (q.stat p))[3]?).getD [] := by
  rw [readProcfs, fs.stat p q hq]
  exact readFields_eq 3 [] _

theorem next_ne_nil (hq : t.procs p = some q) : readProcfs fs.read (pidText p) "stat" 4 ≠ [] := by
  have hlen : 3 < (fields isSpace (q.stat p)).length := by
    have hlabel : fields isSpace q.label ≠ [] := fields_ne_nil rfl List.mem_cons_self
    have hpos := List.length_pos_iff.mpr hlabel
    rw [fields_stat, List.length_cons, List.length_append, List.length_cons, List.length_cons]
    omega
  rw [readProcfs_stat hq, List.getElem?_eq_getElem hlen]
  exact ne_nil_of_mem_fields (List.getElem_mem hlen)

theorem next_eq_iff (hq : t.procs p = some q) :
    readProcfs fs.read (pidText p) "stat" 4 = pidText q.ppid ↔ Framed q := by
  rw [← fourth_word_iff q p, readProcfs_stat hq]
  constructor
  · intro h
    cases hword : (fields isSpace (q.stat p))[3]? with
    | none =>
      rw [hword] at h
      exact absurd h.symm Nat.toDigits_ne_nil
    | some w =>
      rw [hword] at h
      exact congrArg some h
  · intro h
    rw [h]
    rfl

/-! ## The walk -/

theorem pidText_one : pidText 1 = ['1'] := by decide

theorem Ancestry.eq_one (h : Ancestry t.procs p []) : p = 1 := by
  cases h
  rfl

theorem Ancestry.head_eq (h : Ancestry t.procs p l) (hne : l ≠ []) : l.head? = some p := by
  cases h with
  | root => exact absurd rfl hne
  | node => rfl

theorem Ancestry.unique (h : Ancestry t.procs p l) (h' : Ancestry t.procs p l') : l = l' := by
  induction h generalizing l' with
  | root =>
    cases h' with
    | root => rfl
    | node hne => exact absurd rfl hne
  | node hne hq _ ih =>
    cases h' with
    | root => exact absurd rfl hne
    | node _ hq' hrest =>
      obtain rfl := Option.some.inj (hq.symm.trans hq')
      rw [ih hrest]

theorem parentCmdsFrom_succ (read : Files) (fuel : ℕ) (out prev pid : List Char) :
    ∃ out' prev', parentCmdsFrom read (fuel + 1) out prev pid =
      if readProcfs read pid "stat" 4 = [] ∨ readProcfs read pid "stat" 4 = ['1'] then ([pid], some out')
      else
        (pid :: (parentCmdsFrom read fuel out' prev' (readProcfs read pid "stat" 4)).1,
          (parentCmdsFrom read fuel out' prev' (readProcfs read pid "stat" 4)).2) :=
  ⟨_, _, rfl⟩

theorem head_of_stops {fuel : ℕ} {visits : List (List Char)} {result : List Char}
    (h : parentCmdsFrom read fuel out prev pid = (visits, some result)) : visits.head? = some pid := by
  cases fuel with
  | zero => cases h
  | succ fuel =>
    obtain ⟨out', prev', hturn⟩ := parentCmdsFrom_succ read fuel out prev pid
    rw [hturn] at h
    split at h
    all_goals
      obtain ⟨rfl, -⟩ := Prod.mk.inj h
      rfl

/-- A walk over the ancestors has found the parent of each. -/
theorem framed_of_visits (h : Ancestry t.procs p l) {fuel : ℕ} {result : List Char}
    (hwalk : parentCmdsFrom fs.read fuel out prev (pidText p) = (l.map pidText, some result)) :
    ∀ p' ∈ l, ∀ q, t.procs p' = some q → Framed q := by
  induction h generalizing fuel out prev with
  | root => exact fun p' hp' ↦ absurd hp' List.not_mem_nil
  | @node p q l _ hq hrest ih =>
    cases fuel with
    | zero => cases hwalk
    | succ fuel =>
      obtain ⟨out', prev', hturn⟩ := parentCmdsFrom_succ fs.read fuel out prev (pidText p)
      rw [hturn, List.map_cons] at hwalk
      have hparent : Framed q ∧ ∀ p' ∈ l, ∀ q, t.procs p' = some q → Framed q := by
        split at hwalk
        · next hlast =>
          -- The walk ends here, so there are no more ancestors.
          obtain rfl : l = [] := List.map_eq_nil_iff.mp (List.cons.inj (Prod.mk.inj hwalk).1).2.symm
          have hnext : readProcfs fs.read (pidText p) "stat" 4 = pidText q.ppid := by
            rw [hlast.resolve_left (next_ne_nil hq), hrest.eq_one, pidText_one]
          exact ⟨(next_eq_iff hq).mp hnext, fun p' hp' ↦ absurd hp' List.not_mem_nil⟩
        · obtain ⟨hvisits, hresult⟩ := Prod.mk.inj hwalk
          have hwalk' : parentCmdsFrom fs.read fuel out' prev' (readProcfs fs.read (pidText p) "stat" 4) =
              (l.map pidText, some result) := Prod.ext (List.cons.inj hvisits).2 hresult
          have hhead := head_of_stops hwalk'
          rw [List.head?_map] at hhead
          have hl : l ≠ [] := by
            rintro rfl
            cases hhead
          rw [hrest.head_eq hl] at hhead
          have hnext := (Option.some.inj hhead).symm
          rw [hnext] at hwalk'
          exact ⟨(next_eq_iff hq).mp hnext, ih hwalk'⟩
      intro p' hp' q' hq'
      rcases List.mem_cons.mp hp' with rfl | hp'
      · obtain rfl := Option.some.inj (hq.symm.trans hq')
        exact hparent.1
      · exact hparent.2 p' hp' q' hq'

/-- Where each name leaves the pid of the parent in its place, the walk is up the tree, with a turn for each
ancestor. -/
theorem visits_of_framed (h : Ancestry t.procs p l) (hne : p ≠ 1)
    (hframed : ∀ p' ∈ l, ∀ q, t.procs p' = some q → Framed q) (out prev : List Char) :
    ∃ result, parentCmdsFrom fs.read l.length out prev (pidText p) = (l.map pidText, some result) := by
  induction h generalizing out prev with
  | root => exact absurd rfl hne
  | @node p q l _ hq hrest ih =>
    have hnext : readProcfs fs.read (pidText p) "stat" 4 = pidText q.ppid :=
      (next_eq_iff hq).mpr (hframed p List.mem_cons_self q hq)
    obtain ⟨out', prev', hturn⟩ := parentCmdsFrom_succ fs.read l.length out prev (pidText p)
    rw [List.length_cons, hturn, hnext]
    by_cases hone : q.ppid = 1
    · have hl : l = [] := by
        rw [hone] at hrest
        exact hrest.unique .root
      rw [hone, if_pos (.inr pidText_one), hl]
      exact ⟨out', rfl⟩
    · have hgoes : ¬ (pidText q.ppid = [] ∨ pidText q.ppid = ['1']) := by
        rintro (hnil | hlast)
        · exact Nat.toDigits_ne_nil hnil
        · exact hone (pidText_inj (hlast.trans pidText_one.symm))
      obtain ⟨result, hrest⟩ := ih hone (fun p' hp' ↦ hframed p' (List.mem_cons_of_mem p hp')) out' prev'
      rw [if_neg hgoes, hrest]
      exact ⟨result, rfl⟩

/-- The walk stops and visits the ancestors if and only if the names on the way leave each pid in its place. -/
theorem parent_cmds_follows_iff (t : ProcessTable) (fs : Procfs t) (parent : ℕ)
    (hparent : (t.procs parent).isSome) (hne : parent ≠ 1) :
    Follows fs.read t parent ↔ ∀ l, Ancestry t.procs parent l → ∀ p ∈ l, ∀ q, t.procs p = some q → Framed q := by
  constructor
  · rintro ⟨l, fuel, out, hl, hwalk⟩ l' hl'
    rw [hl'.unique hl]
    exact framed_of_visits hl hwalk
  · intro hframed
    obtain ⟨l, hl⟩ := t.rooted parent hparent
    obtain ⟨out, hwalk⟩ := visits_of_framed hl hne (hframed l hl) [] []
    exact ⟨l, l.length, out, hl, hwalk⟩

/-! ## Two tables -/

/-- The files of a table, with the names in `comm`. -/
def ProcessTable.procfs (t : ProcessTable) : Procfs t where
  read pid file :=
    let p := Config.digitsVal pid
    if file = "stat" then (t.procs p).map fun q ↦ q.stat p
    else if file = "comm" then (t.procs p).map fun q ↦ q.comm ++ ['\n']
    else none
  stat p q hq := by
    rw [pidText, PowerButton.digitsVal_toDigits, if_pos rfl, hq]
    rfl

def sleeping (comm : List Char) (ppid : ℕ) : Process where
  comm := comm
  state := 'S'
  state_isAlpha := rfl
  ppid := ppid
  rest := []

/-- Process 7 is a shell that process 5 has started. -/
def shellProcs (comm : List Char) (p : ℕ) : Option Process :=
  if p = 1 then some (sleeping ['i', 'n', 'i', 't'] 0)
  else if p = 5 then some (sleeping comm 1)
  else if p = 7 then some (sleeping ['s', 'h'] 5)
  else none

theorem eq_of_shellProcs (comm : List Char) (h : (shellProcs comm p).isSome) : p = 1 ∨ p = 5 ∨ p = 7 := by
  by_contra hp
  push Not at hp
  rw [shellProcs, if_neg hp.1, if_neg hp.2.1, if_neg hp.2.2] at h
  cases h

/-- The shell is in a tree, whatever the name of the process that has started it. -/
def shellTable (comm : List Char) : ProcessTable where
  procs := shellProcs comm
  rooted p hp := by
    have hparent : Ancestry (shellProcs comm) 5 [5] := .node (by decide) rfl .root
    rcases eq_of_shellProcs comm hp with rfl | rfl | rfl
    · exact ⟨[], .root⟩
    · exact ⟨[5], hparent⟩
    · exact ⟨[7, 5], .node (by decide) rfl hparent⟩

abbrev sshd : List Char := ['s', 's', 'h', 'd']

theorem parent_cmds_follows_shell : Follows (shellTable sshd).procfs.read (shellTable sshd) 7 := by
  apply (parent_cmds_follows_iff (shellTable sshd) (shellTable sshd).procfs 7 rfl (by decide)).mpr
  intro l _ p _ q hq
  left
  rcases eq_of_shellProcs sshd (Option.isSome_of_eq_some hq) with rfl | rfl | rfl
  all_goals
    obtain rfl := Option.some.inj hq
    exact List.all_iff_forall_prop.mp (by decide)

/-- At a process that is taken for its own parent the walk stays for ever. -/
theorem result_of_loop (hnext : readProcfs read pid "stat" 4 = pid) (hgoes : ¬ (pid = [] ∨ pid = ['1']))
    (fuel : ℕ) (out prev : List Char) : (parentCmdsFrom read fuel out prev pid).2 = none := by
  induction fuel generalizing out prev with
  | zero => rfl
  | succ fuel ih =>
    obtain ⟨out', prev', hturn⟩ := parentCmdsFrom_succ read fuel out prev pid
    rw [hturn, hnext, if_neg hgoes]
    exact ih out' prev'

/-- A name whose third word is the pid of the process. -/
abbrev crafted : List Char := ['a', ' ', 'b', ' ', '5', ' ', 'c']

/-- The name that process 5 has chosen makes it its own parent, and the shell never comes to its command. -/
theorem named_like_pid_not_follows :
    crafted.length ≤ 15 ∧ ((shellTable crafted).procs 7).isSome ∧
      (∀ fuel, (parentCmds (shellTable crafted).procfs.read fuel 7).2 = none) ∧
      ¬ Follows (shellTable crafted).procfs.read (shellTable crafted) 7 := by
  have hfirst : readProcfs (shellTable crafted).procfs.read (pidText 7) "stat" 4 = ['5'] := by decide +kernel
  have hloop : readProcfs (shellTable crafted).procfs.read ['5'] "stat" 4 = ['5'] := by decide +kernel
  have hstops : ∀ fuel, (parentCmds (shellTable crafted).procfs.read fuel 7).2 = none := by
    intro fuel
    cases fuel with
    | zero => rfl
    | succ fuel =>
      obtain ⟨out, prev, hturn⟩ := parentCmdsFrom_succ (shellTable _).procfs.read fuel [] [] (pidText 7)
      rw [parentCmds, hturn, hfirst, if_neg (by decide)]
      exact result_of_loop hloop (by decide) fuel out prev
  refine ⟨by decide, rfl, hstops, ?_⟩
  rintro ⟨l, fuel, out, -, hwalk⟩
  have hnone := hstops fuel
  rw [hwalk] at hnone
  cases hnone

end Vcass.Vcactl.ParentCmds
