import Mathlib.Data.List.Basic

/-!
# Words of a shell command

How a POSIX shell takes a text apart: blanks separate words, some characters are operators, and a backslash or
quotes make what they cover part of a word. An operator of several characters is several tokens here.

Expansions are not treated. Where the text has one, `lex` says so, since what becomes of it depends on the
variables and files of the shell.

A command is *simple* here if it is just words, followed perhaps by one redirection of the output. What a shell
does beyond that is a parameter (`Shell`), of which little is asked.
-/

namespace Shell

/-! ## Characters -/

/-- What an unquoted character is. -/
inductive Kind
  | literal
  | blank
  | newline
  | operator
  | backslash
  | single
  | double
  | expansion
  deriving DecidableEq, Repr

/-- `\x5c` is the backslash, `\x27` and `\x22` are the quotes and `\x60` is the grave accent. The brace `\x7b` starts
an expansion in some shells only. -/
def kind : Char → Kind
  | ' ' | '\t' => .blank
  | '\n' => .newline
  | '|' | '&' | ';' | '<' | '>' | '(' | ')' => .operator
  | '\x5c' => .backslash
  | '\x27' => .single
  | '\x22' => .double
  | '$' | '\x60' | '*' | '?' | '[' | '\x7b' => .expansion
  | _ => .literal

/-! ## Tokens -/

inductive Token
  | word (text : List Char)
  | blank
  | newline
  | op (c : Char)
  deriving DecidableEq, Repr

/-- Why a text has no tokens. -/
inductive Stuck
  | unterminated
  | expansion
  deriving DecidableEq, Repr

inductive Mode
  | plain
  /-- Behind a backslash. -/
  | escape
  | single
  | double
  /-- Behind a backslash in double quotes. -/
  | doubleEscape
  | comment
  deriving DecidableEq, Repr

/-- The word so far, if there is one. -/
abbrev Word := Option (List Char)

def Word.push (cur : Word) (c : Char) : Word := some (cur.getD [] ++ [c])

/-- A quote begins a word, be it empty. -/
def Word.start (cur : Word) : Word := some (cur.getD [])

def Word.close (cur : Word) : List Token := cur.toList.map .word

/-- The tokens that are complete with the next character, and what is left; nothing at an expansion. -/
def next : Mode → Word → Char → Option (List Token × Mode × Word)
  | .plain, cur, c =>
    match kind c with
    | .blank => some (cur.close ++ [Token.blank], .plain, none)
    | .newline => some (cur.close ++ [Token.newline], .plain, none)
    | .operator => some (cur.close ++ [Token.op c], .plain, none)
    | .backslash => some ([], .escape, cur)
    | .single => some ([], .single, cur.start)
    | .double => some ([], .double, cur.start)
    | .expansion => none
    | .literal =>
      if c = '#' ∧ cur = none then some ([], .comment, none)
      else if c = '~' ∧ cur = none then none
      else some ([], .plain, cur.push c)
  | .escape, cur, c => some ([], .plain, if c = '\n' then cur else cur.push c)
  | .single, cur, c => if kind c = .single then some ([], .plain, cur) else some ([], .single, cur.push c)
  | .double, cur, c =>
    if kind c = .double then some ([], .plain, cur)
    else if kind c = .backslash then some ([], .doubleEscape, cur)
    else if c = '$' ∨ c = '\x60' then none
    else some ([], .double, cur.push c)
  | .doubleEscape, cur, c =>
    if c = '\n' then some ([], .double, cur)
    else if c = '$' ∨ c = '\x60' ∨ kind c = .double ∨ kind c = .backslash then some ([], .double, cur.push c)
    else some ([], .double, Word.push (cur.push '\x5c') c)
  | .comment, cur, c => if c = '\n' then some ([.newline], .plain, none) else some ([], .comment, cur)

/-- The tokens of a text. -/
def lex : Mode → Word → List Char → Except Stuck (List Token)
  | .plain, cur, [] | .comment, cur, [] => .ok cur.close
  | .escape, cur, [] => .ok (cur.push '\x5c').close
  | .single, _, [] | .double, _, [] | .doubleEscape, _, [] => .error .unterminated
  | m, cur, c :: cs =>
    match next m cur c with
    | none => .error .expansion
    | some (out, m', cur') => (out ++ ·) <$> lex m' cur' cs

/-! ## Commands -/

structure Command where
  words : List (List Char)
  /-- The file the output goes to, if it is redirected. -/
  stdout : Option (List Char)
  deriving DecidableEq, Repr

/-- Words and a redirection behind them, which does not touch the last word. -/
def simple : List Token → Option Command
  | [] | [.newline] => some ⟨[], none⟩
  | [.word w] | [.word w, .newline] => some ⟨[w], none⟩
  | .word w :: .blank :: ts => (simple ts).map fun cmd ↦ { cmd with words := w :: cmd.words }
  | .blank :: ts => simple ts
  | [.op '>', .blank, .word file] | [.op '>', .blank, .word file, .newline] => some ⟨[], some file⟩
  | _ => none

/-- What the text of a command does not decide. A compound command runs commands made of words of the text. -/
structure Interp where
  compound : List Char → List Command
  expanded : List Char → List Command
  word_mem : ∀ text ts, lex .plain none text = .ok ts → ∀ cmd ∈ compound text, ∀ w ∈ cmd.words, .word w ∈ ts

/-- The words that are not the name of a command. -/
def reserved : List String :=
  ["!", "\x7b", "\x7d", "case", "do", "done", "elif", "else", "esac", "fi", "for", "if", "in", "then", "until",
    "while"]

/-- Neither a reserved word nor an assignment. -/
def IsName (w : List Char) : Prop := w ∉ reserved.map String.toList ∧ '=' ∉ w

instance (w : List Char) : Decidable (IsName w) :=
  inferInstanceAs (Decidable (w ∉ reserved.map String.toList ∧ '=' ∉ w))

/-- The command of a text that is a simple command. -/
def command (ts : List Token) : Option Command :=
  (simple ts).filter fun cmd ↦ ∃ w ∈ cmd.words.head?, IsName w

/-- The commands that the shell runs for a text. -/
def Interp.run (sh : Interp) (text : List Char) : List Command :=
  match lex .plain none text with
  | .error .unterminated => []
  | .error .expansion => sh.expanded text
  | .ok ts =>
    match command ts with
    | some cmd => [cmd]
    | none => sh.compound text

variable {m m' : Mode} {cur cur' : Word} {w rest text : List Char} {ws : List (List Char)} {out ts : List Token}
variable {c : Char} {cmd : Command}

/-- `\x27` is the single quote. -/
theorem kind_eq_single_iff : kind c = .single ↔ c = '\x27' := by
  constructor
  · intro h
    unfold kind at h
    split at h <;> first | rfl | cases h
  · rintro rfl
    rfl

theorem lex_cons (h : next m cur c = some (out, m', cur')) :
    lex m cur (c :: text) = (out ++ ·) <$> lex m' cur' text := by
  rw [lex, h]

theorem lex_cons_silent (h : next m cur c = some ([], m', cur')) : lex m cur (c :: text) = lex m' cur' text := by
  rw [lex_cons h]
  exact id_map _

theorem lex_plain_nil : lex .plain cur [] = .ok cur.close := by rw [lex]

theorem lex_quoted_nil (hm : m = .single ∨ m = .double ∨ m = .doubleEscape) : lex m cur [] = .error .unterminated := by
  rcases hm with rfl | rfl | rfl <;> rw [lex]

theorem Interp.run_of_command (sh : Interp) (hlex : lex .plain none text = .ok ts) (hcmd : command ts = some cmd) :
    sh.run text = [cmd] := by
  rw [run, hlex]
  simp only [hcmd]

/-! ## Plain words -/

/-- A word that stands for itself, wherever it begins. -/
structure Plain (w : List Char) : Prop where
  ne_nil : w ≠ []
  literal : ∀ c ∈ w, kind c = .literal
  head : ∀ c ∈ w.head?, c ≠ '#' ∧ c ≠ '~'

instance (w : List Char) : Decidable (Plain w) :=
  -- The characters of the word are looked at, not all there are.
  letI := List.decidableBAll (fun c ↦ kind c = .literal) w
  letI := List.decidableBAll (fun c ↦ c ≠ '#' ∧ c ≠ '~') w.head?.toList
  decidable_of_iff (w ≠ [] ∧ (∀ c ∈ w, kind c = .literal) ∧ ∀ c ∈ w.head?.toList, c ≠ '#' ∧ c ≠ '~')
    ⟨fun h ↦ ⟨h.1, h.2.1, fun c hc ↦ h.2.2 c (Option.mem_toList.mpr hc)⟩,
      fun h ↦ ⟨h.ne_nil, h.literal, fun c hc ↦ h.head c (Option.mem_toList.mp hc)⟩⟩

theorem lex_literal (hw : ∀ c ∈ w, kind c = .literal) (u : List Char) :
    lex .plain (some u) (w ++ rest) = lex .plain (some (u ++ w)) rest := by
  induction w generalizing u with
  | nil => rw [List.nil_append, List.append_nil]
  | cons c w ih =>
    obtain ⟨hc, hw⟩ := List.forall_mem_cons.mp hw
    have hnext : next .plain (some u) c = some ([], .plain, some (u ++ [c])) := by
      rw [next, hc]
      simp [Word.push]
    rw [List.cons_append, lex_cons_silent hnext, ih hw, List.append_assoc, List.singleton_append]

theorem Plain.lex (hw : Plain w) : lex .plain none (w ++ rest) = Shell.lex .plain (some w) rest := by
  obtain ⟨c, w, rfl⟩ := List.exists_cons_of_ne_nil hw.ne_nil
  obtain ⟨hc, hlit⟩ := List.forall_mem_cons.mp hw.literal
  obtain ⟨hsharp, htilde⟩ := hw.head c rfl
  have hnext : next .plain none c = some ([], .plain, some [c]) := by
    rw [next, hc]
    simp [hsharp, htilde, Word.push]
  rw [List.cons_append, lex_cons_silent hnext]
  exact lex_literal hlit [c]

/-- Words with a blank behind each. -/
def spaced (ws : List (List Char)) : List Char := ws.flatMap (· ++ [' '])

def spacedTokens (ws : List (List Char)) : List Token := ws.flatMap fun w ↦ [.word w, .blank]

theorem lex_spaced (hws : ∀ w ∈ ws, Plain w) :
    lex .plain none (spaced ws ++ rest) = (spacedTokens ws ++ ·) <$> lex .plain none rest := by
  induction ws with
  | nil => exact (id_map _).symm
  | cons w ws ih =>
    obtain ⟨hw, hws⟩ := List.forall_mem_cons.mp hws
    have htext : spaced (w :: ws) ++ rest = w ++ ' ' :: (spaced ws ++ rest) := by simp [spaced]
    have hblank : next .plain (some w) ' ' = some ([.word w, .blank], .plain, none) := rfl
    rw [htext, hw.lex, lex_cons hblank, ih hws, ← comp_map]
    rfl

theorem simple_spaced (ws : List (List Char)) (ts : List Token) :
    simple (spacedTokens ws ++ ts) = (simple ts).map fun cmd ↦ { cmd with words := ws ++ cmd.words } := by
  induction ws with
  | nil => exact Option.map_id'.symm
  | cons w ws ih =>
    have htokens : spacedTokens (w :: ws) ++ ts = .word w :: Token.blank :: (spacedTokens ws ++ ts) := by
      simp [spacedTokens]
    rw [htokens, simple, ih, Option.map_map]
    rfl

/-! ## Simple commands -/

theorem Interp.run_words (sh : Interp) (hname : ∃ v ∈ (ws ++ [w]).head?, IsName v) (hws : ∀ v ∈ ws, Plain v)
    (hw : Plain w) : sh.run (spaced ws ++ (w ++ ['\n'])) = [⟨ws ++ [w], none⟩] := by
  have hlex : lex .plain none (spaced ws ++ (w ++ ['\n'])) = .ok (spacedTokens ws ++ [Token.word w, .newline]) := by
    rw [lex_spaced hws, hw.lex]
    rfl
  have hcommand : command (spacedTokens ws ++ [Token.word w, .newline]) = some ⟨ws ++ [w], none⟩ := by
    rw [command, simple_spaced, Option.filter_eq_some_iff]
    exact ⟨rfl, decide_eq_true hname⟩
  exact sh.run_of_command hlex hcommand

theorem Interp.run_redirected (sh : Interp) {file : List Char} (hname : ∃ v ∈ ws.head?, IsName v)
    (hws : ∀ v ∈ ws, Plain v) (hfile : Plain file) :
    sh.run (spaced ws ++ ('>' :: ' ' :: file)) = [⟨ws, some file⟩] := by
  have hlex : lex .plain none (spaced ws ++ ('>' :: ' ' :: file)) =
      .ok (spacedTokens ws ++ [Token.op '>', .blank, .word file]) := by
    have hrest : lex .plain none (file ++ []) = lex .plain (some file) [] := hfile.lex
    have hop : next .plain none '>' = some ([.op '>'], .plain, none) := rfl
    have hblank : next .plain none ' ' = some ([.blank], .plain, none) := rfl
    rw [List.append_nil] at hrest
    rw [lex_spaced hws, lex_cons hop, lex_cons hblank, hrest]
    rfl
  have hcommand : command (spacedTokens ws ++ [Token.op '>', .blank, .word file]) = some ⟨ws, some file⟩ := by
    rw [command, simple_spaced, Option.filter_eq_some_iff]
    constructor
    · simp [simple]
    · simpa using hname
  exact sh.run_of_command hlex hcommand

/-! ## Where the words come from -/

theorem mem_of_simple (h : simple ts = some cmd) (hw : w ∈ cmd.words) : .word w ∈ ts := by
  fun_induction simple ts generalizing cmd with
  | case1 | case2 =>
    obtain rfl := Option.some_inj.mp h
    simp at hw
  | case3 | case4 =>
    obtain rfl := Option.some_inj.mp h
    simpa using hw
  | case5 v ts ih =>
    obtain ⟨cmd', hcmd', rfl⟩ := Option.map_eq_some_iff.mp h
    rcases List.mem_cons.mp hw with rfl | hw
    · exact List.mem_cons_self
    · exact List.mem_cons_of_mem _ (List.mem_cons_of_mem _ (ih hcmd' hw))
  | case6 ts ih => exact List.mem_cons_of_mem _ (ih h hw)
  | case7 | case8 =>
    obtain rfl := Option.some_inj.mp h
    simp at hw
  | case9 => simp at h

/-- Whatever is run, its words are words of the text. -/
theorem Interp.word_mem_of_run (sh : Interp) (hlex : lex .plain none text = .ok ts) (hcmd : cmd ∈ sh.run text)
    (hw : w ∈ cmd.words) : .word w ∈ ts := by
  rw [run, hlex] at hcmd
  simp only at hcmd
  split at hcmd
  case h_1 hsome =>
    obtain rfl := List.mem_singleton.mp hcmd
    rw [command, Option.filter_eq_some_iff] at hsome
    exact mem_of_simple hsome.1 hw
  case h_2 => exact sh.word_mem text ts hlex cmd hcmd w hw

theorem next_eq_none (h : next m cur c = none) : kind c = .expansion ∨ c = '~' := by
  have hdollar : kind '$' = .expansion := rfl
  have hgrave : kind '\x60' = .expansion := rfl
  cases m with
  | plain =>
    rw [next] at h
    split at h
    case h_7 hkind => exact .inl hkind
    case h_8 =>
      split_ifs at h with _ htilde
      exact .inr htilde.1
    all_goals simp at h
  | double =>
    rw [next] at h
    split_ifs at h with _ _ hexp
    rcases hexp with rfl | rfl
    · exact .inl hdollar
    · exact .inl hgrave
  | escape => simp [next] at h
  | single =>
    rw [next] at h
    split_ifs at h
  | doubleEscape =>
    rw [next] at h
    split_ifs at h
  | comment =>
    rw [next] at h
    split_ifs at h

theorem exists_of_expansion (h : lex m cur text = .error .expansion) :
    ∃ c ∈ text, kind c = .expansion ∨ c = '~' := by
  induction text generalizing m cur with
  | nil => cases m <;> simp [lex] at h
  | cons c text ih =>
    cases hnext : next m cur c with
    | none => exact ⟨c, List.mem_cons_self, next_eq_none hnext⟩
    | some x =>
      rw [lex_cons hnext] at h
      have hlex : lex x.2.1 x.2.2 text = .error .expansion := by
        cases hlex : lex x.2.1 x.2.2 text with
        | error e => simpa [hlex] using h
        | ok ts => simp [hlex] at h
      obtain ⟨d, hd, hkind⟩ := ih hlex
      exact ⟨d, List.mem_cons_of_mem c hd, hkind⟩

/-! ## No word is longer than its text -/

/-- The characters that are in the current word, or are sure to be. -/
def Mode.size (m : Mode) (cur : Word) : ℕ := (cur.getD []).length + if m = .doubleEscape then 1 else 0

theorem length_push (cur : Word) (c : Char) : ((cur.push c).getD []).length = (cur.getD []).length + 1 := by
  simp [Word.push]

theorem mem_close (h : .word w ∈ cur.close) : cur = some w := by
  cases cur with
  | none => simp [Word.close] at h
  | some u => simpa [Word.close, eq_comm] using h

theorem mem_close_append {t : Token} (ht : ∀ w, t ≠ .word w) (h : .word w ∈ cur.close ++ [t]) : cur = some w := by
  rcases List.mem_append.mp h with h | h
  · exact mem_close h
  · exact absurd (List.mem_singleton.mp h).symm (ht w)

/-- A step completes the current word at most, and adds one character at most. -/
theorem next_size (h : next m cur c = some (out, m', cur')) :
    (∀ w, .word w ∈ out → cur = some w) ∧ m'.size cur' ≤ m.size cur + 1 := by
  cases m with
  | plain =>
    rw [next] at h
    split at h
    case h_7 => simp at h
    case h_8 =>
      split_ifs at h
      all_goals
        obtain ⟨rfl, rfl, rfl⟩ : out = [] ∧ _ ∧ _ := by simpa [eq_comm] using h
        simp [Mode.size, length_push]
    all_goals
      obtain ⟨rfl, rfl, rfl⟩ : _ ∧ _ ∧ _ := by simpa [eq_comm] using h
    · exact ⟨fun w ↦ mem_close_append (by simp), by simp [Mode.size]⟩
    · exact ⟨fun w ↦ mem_close_append (by simp), by simp [Mode.size]⟩
    · exact ⟨fun w ↦ mem_close_append (by simp), by simp [Mode.size]⟩
    all_goals simp [Mode.size, Word.start]
  | comment =>
    rw [next] at h
    split_ifs at h
    all_goals
      obtain ⟨rfl, rfl, rfl⟩ : _ ∧ _ ∧ _ := by simpa [eq_comm] using h
      simp [Mode.size]
  | escape =>
    obtain ⟨rfl, rfl, rfl⟩ : _ ∧ _ ∧ _ := by simpa [next, eq_comm] using h
    refine ⟨by simp, ?_⟩
    split <;> simp [Mode.size, length_push]
  | single | double | doubleEscape =>
    rw [next] at h
    split_ifs at h
    all_goals
      obtain ⟨rfl, rfl, rfl⟩ : _ ∧ _ ∧ _ := by simpa [eq_comm] using h
      refine ⟨by simp, ?_⟩
      simp only [Mode.size, length_push, reduceCtorEq, if_true, if_false]
      omega

theorem length_le_size (h : cur = some w) : w.length ≤ m.size cur := by
  rw [h]
  exact Nat.le_add_right _ _

theorem mem_lex_newline (h : lex m cur ['\n'] = .ok ts) (hw : .word w ∈ ts) : w.length ≤ m.size cur := by
  cases m with
  | plain =>
    have hnext : next .plain cur '\n' = some (cur.close ++ [Token.newline], .plain, none) := rfl
    rw [lex_cons hnext, lex_plain_nil] at h
    obtain rfl : cur.close ++ [Token.newline] ++ [] = ts := Except.ok.inj h
    rw [List.append_nil] at hw
    exact length_le_size (mem_close_append (by simp) hw)
  | escape =>
    have hnext : next .escape cur '\n' = some ([], .plain, cur) := rfl
    rw [lex_cons_silent hnext, lex_plain_nil] at h
    obtain rfl : cur.close = ts := Except.ok.inj h
    exact length_le_size (mem_close hw)
  | comment =>
    have hnext : next .comment cur '\n' = some ([.newline], .plain, none) := rfl
    rw [lex_cons hnext, lex_plain_nil] at h
    obtain rfl : [.newline] = ts := Except.ok.inj h
    simp at hw
  -- In quotes the newline is a character of the word, which does not end.
  | single =>
    have hnext : next .single cur '\n' = some ([], .single, cur.push '\n') := rfl
    rw [lex_cons_silent hnext, lex_quoted_nil (by decide)] at h
    cases h
  | double =>
    have hnext : next .double cur '\n' = some ([], .double, cur.push '\n') := rfl
    rw [lex_cons_silent hnext, lex_quoted_nil (by decide)] at h
    cases h
  | doubleEscape =>
    have hnext : next .doubleEscape cur '\n' = some ([], .double, cur) := rfl
    rw [lex_cons_silent hnext, lex_quoted_nil (by decide)] at h
    cases h

theorem lex_cons_ok (h : lex m cur (c :: text) = .ok ts) :
    ∃ out m' cur' ts', next m cur c = some (out, m', cur') ∧ lex m' cur' text = .ok ts' ∧ ts = out ++ ts' := by
  cases hnext : next m cur c with
  | none => simp [lex, hnext] at h
  | some x =>
    rw [lex_cons hnext] at h
    cases hlex : lex x.2.1 x.2.2 text with
    | error e => simp [hlex] at h
    | ok ts' => exact ⟨_, _, _, ts', rfl, hlex, by simpa [hlex, eq_comm] using h⟩

theorem length_le_of_mem_lex (h : lex m cur (text ++ ['\n']) = .ok ts) (hw : .word w ∈ ts) :
    w.length ≤ m.size cur + text.length := by
  induction text generalizing m cur ts with
  | nil => exact mem_lex_newline h hw
  | cons c text ih =>
    obtain ⟨out, m', cur', ts', hnext, hlex, rfl⟩ := lex_cons_ok h
    obtain ⟨hout, hsize⟩ := next_size hnext
    rw [List.length_cons]
    rcases List.mem_append.mp hw with hw | hw
    · have hle : w.length ≤ m.size cur := length_le_size (hout w hw)
      omega
    · have hle := ih hlex hw
      omega

/-- A word that is as long as its text consists of literal characters. -/
theorem literal_of_mem_lex (h : lex .plain cur (text ++ ['\n']) = .ok ts) (hw : .word w ∈ ts)
    (hlen : (cur.getD []).length + text.length ≤ w.length) : ∀ c ∈ text, kind c = .literal := by
  induction text generalizing cur ts with
  | nil => simp
  | cons c text ih =>
    obtain ⟨out, m', cur', ts', hnext, hlex, rfl⟩ := lex_cons_ok h
    rw [List.length_cons] at hlen
    have hout : .word w ∈ ts' := by
      refine (List.mem_append.mp hw).resolve_left fun hw ↦ ?_
      have hle := length_le_size (m := .plain) ((next_size hnext).1 w hw)
      rw [Mode.size, if_neg (by simp)] at hle
      omega
    have hle := length_le_of_mem_lex hlex hout
    by_cases hpush : m' = .plain ∧ cur' = cur.push c ∧ kind c = .literal
    · obtain ⟨rfl, rfl, hc⟩ := hpush
      refine List.forall_mem_cons.mpr ⟨hc, ih hlex hout ?_⟩
      rw [length_push]
      omega
    -- any other step leaves the word as long as it was
    · have hsize : m'.size cur' ≤ (cur.getD []).length := by
        rw [next] at hnext
        split at hnext
        case h_7 => simp at hnext
        case h_8 hkind =>
          split_ifs at hnext
          all_goals
            obtain ⟨-, rfl, rfl⟩ : _ ∧ _ ∧ _ := by simpa [eq_comm] using hnext
          · simp [Mode.size]
          · exact absurd ⟨rfl, rfl, hkind⟩ hpush
        all_goals
          obtain ⟨-, rfl, rfl⟩ : _ ∧ _ ∧ _ := by simpa [eq_comm] using hnext
          simp [Mode.size, Word.start]
      omega

end Shell
