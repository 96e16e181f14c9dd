import Mathlib.Data.List.Count
import Vcass.Lib.Shell

/-!
# Words of a shell script

`Shell.lex` gives up at an expansion. Here the expansions that a script can do without harm are parts of words: a
parameter in braces, a command in grave accents, and the characters of patterns. Any other expansion still has no
tokens, and neither has a text that ends within quotes.

A word consists of pieces, and a value that is data in a script is one of which all pieces are literal. How a value
gets there depends on what it is put between: `lex_word_iff` and `lex_quoted_iff` say which values arrive, and that
no other one does.
-/

namespace ShellScript

open Shell (Kind kind kind_eq_single_iff)

/-! ## Tokens -/

/-- What a word is made of. -/
inductive Piece
  | lit (c : Char)
  /-- A character of a pattern, a brace or a tilde. -/
  | active (c : Char)
  | param (name : List Char)
  | command (text : List Char)
  deriving DecidableEq, Repr

def Piece.isLit : Piece → Bool
  | .lit _ => true
  | _ => false

/-- Characters that stand for themselves. -/
def lits (w : List Char) : List Piece := w.map .lit

inductive Token
  | word (pieces : List Piece)
  | blank
  | newline
  | op (c : Char)
  deriving DecidableEq, Repr

inductive Mode
  | plain
  /-- Behind a backslash. -/
  | escape
  | single
  | double
  /-- Behind a backslash in double quotes. -/
  | doubleEscape
  | comment
  /-- Behind a dollar sign. -/
  | dollar
  | param (name : List Char)
  | command (text : List Char)
  deriving DecidableEq, Repr

/-- The word so far, if there is one. -/
abbrev Word := Option (List Piece)

def Word.push (cur : Word) (p : Piece) : Word := some (cur.getD [] ++ [p])

/-- A quote begins a word, be it empty. -/
def Word.start (cur : Word) : Word := some (cur.getD [])

def Word.close (cur : Word) : List Token := cur.toList.map .word

/-- A character of a name in braces. -/
def isNameChar (c : Char) : Bool := c.isAlphanum || c = '_'

/-- The tokens that are complete with the next character, and what is left. -/
def next : Mode → Word → Char → Option (List Token × Mode × Word)
  | .plain, cur, c =>
    match kind c with
    | .blank => some (cur.close ++ [.blank], .plain, none)
    | .newline => some (cur.close ++ [.newline], .plain, none)
    | .operator => some (cur.close ++ [.op c], .plain, none)
    | .backslash => some ([], .escape, cur)
    | .single => some ([], .single, cur.start)
    | .double => some ([], .double, cur.start)
    | .expansion =>
      if c = '$' then some ([], .dollar, cur)
      else if c = '\x60' then some ([], .command [], cur)
      else some ([], .plain, cur.push (.active c))
    | .literal =>
      if c = '#' ∧ cur = none then some ([], .comment, none)
      else if c = '~' ∧ cur = none then some ([], .plain, cur.push (.active c))
      else some ([], .plain, cur.push (.lit c))
  | .escape, cur, c => some ([], .plain, if c = '\n' then cur else cur.push (.lit c))
  | .single, cur, c => if kind c = .single then some ([], .plain, cur) else some ([], .single, cur.push (.lit c))
  | .double, cur, c =>
    if kind c = .double then some ([], .plain, cur)
    else if kind c = .backslash then some ([], .doubleEscape, cur)
    else if c = '$' ∨ c = '\x60' then none
    else some ([], .double, cur.push (.lit c))
  | .doubleEscape, cur, c =>
    if c = '\n' then some ([], .double, cur)
    else if c = '$' ∨ c = '\x60' ∨ kind c = .double ∨ kind c = .backslash then some ([], .double, cur.push (.lit c))
    else some ([], .double, Word.push (cur.push (.lit '\x5c')) (.lit c))
  | .comment, cur, c => if c = '\n' then some ([.newline], .plain, none) else some ([], .comment, cur)
  | .dollar, cur, c => if c = '\x7b' then some ([], .param [], cur) else none
  | .param name, cur, c =>
    if c = '\x7d' then some ([], .plain, cur.push (.param name))
    else if isNameChar c then some ([], .param (name ++ [c]), cur)
    else none
  | .command text, cur, c =>
    if c = '\x60' then some ([], .plain, cur.push (.command text))
    else if kind c = .backslash then none
    else some ([], .command (text ++ [c]), cur)

/-- The tokens at the end of a text. -/
def finish : Mode → Word → Option (List Token)
  | .plain, cur | .comment, cur => some cur.close
  | .escape, cur => some (cur.push (.lit '\x5c')).close
  | _, _ => none

/-- The tokens of a text. -/
def lex : Mode → Word → List Char → Option (List Token)
  | m, cur, [] => finish m cur
  | m, cur, c :: cs => (next m cur c).bind fun r ↦ (lex r.2.1 r.2.2 cs).map (r.1 ++ ·)

/-- The tokens of a part of a text, and what is left. -/
def scan : Mode → Word → List Char → Option (List Token × Mode × Word)
  | m, cur, [] => some ([], m, cur)
  | m, cur, c :: cs => (next m cur c).bind fun r ↦ (scan r.2.1 r.2.2 cs).map fun r' ↦ (r.1 ++ r'.1, r'.2)

variable {m m' : Mode} {cur cur' : Word} {text rest a b w x : List Char} {out ts : List Token} {c : Char}
variable {ps : List Piece} {p : Piece} {t : Token}

theorem lex_cons (h : next m cur c = some (out, m', cur')) :
    lex m cur (c :: text) = (lex m' cur' text).map (out ++ ·) := by
  rw [lex, h]
  rfl

theorem lex_cons_silent (h : next m cur c = some ([], m', cur')) : lex m cur (c :: text) = lex m' cur' text := by
  rw [lex_cons h]
  exact Option.map_id'

theorem lex_append (h : scan m cur a = some (out, m', cur')) :
    lex m cur (a ++ b) = (lex m' cur' b).map (out ++ ·) := by
  induction a generalizing m cur out with
  | nil =>
    obtain ⟨rfl, rfl, rfl⟩ : [] = out ∧ m = m' ∧ cur = cur' := by simpa [scan] using h
    exact Option.map_id'.symm
  | cons c a ih =>
    rw [scan, Option.bind_eq_some_iff] at h
    obtain ⟨⟨out₁, m₁, cur₁⟩, hnext, h⟩ := h
    obtain ⟨⟨out₂, m₂, cur₂⟩, hscan, heq⟩ := Option.map_eq_some_iff.mp h
    obtain ⟨rfl, rfl, rfl⟩ : out₁ ++ out₂ = out ∧ m₂ = m' ∧ cur₂ = cur' := by simpa using heq
    rw [List.cons_append, lex_cons hnext, ih hscan, Option.map_map]
    congr 1
    funext ts
    exact (List.append_assoc ..).symm

theorem scan_append {out' : List Token} {m'' : Mode} {cur'' : Word} (h : scan m cur a = some (out, m', cur'))
    (h' : scan m' cur' b = some (out', m'', cur'')) : scan m cur (a ++ b) = some (out ++ out', m'', cur'') := by
  induction a generalizing m cur out with
  | nil =>
    obtain ⟨rfl, rfl, rfl⟩ : [] = out ∧ m = m' ∧ cur = cur' := by simpa [scan] using h
    exact h'
  | cons c a ih =>
    rw [scan, Option.bind_eq_some_iff] at h
    obtain ⟨⟨out₁, m₁, cur₁⟩, hnext, h⟩ := h
    obtain ⟨⟨out₂, m₂, cur₂⟩, hscan, heq⟩ := Option.map_eq_some_iff.mp h
    obtain ⟨rfl, rfl, rfl⟩ : out₁ ++ out₂ = out ∧ m₂ = m' ∧ cur₂ = cur' := by simpa using heq
    rw [List.cons_append, scan, hnext, Option.bind_some, ih hscan]
    simp

/-- A part of a text with the tokens that are expected of it. -/
theorem lex_append_iff (h : scan m cur a = some (out, m', cur')) :
    lex m cur (a ++ b) = some (out ++ ts) ↔ lex m' cur' b = some ts := by
  rw [lex_append h, Option.map_eq_some_iff]
  constructor
  · rintro ⟨ts', hts', heq⟩
    rwa [List.append_cancel_left heq] at hts'
  · intro hts
    exact ⟨ts, hts, rfl⟩

/-! ## The first word -/

theorem getD_push (cur : Word) (p : Piece) : (cur.push p).getD [] = cur.getD [] ++ [p] := rfl

theorem getD_start (cur : Word) : cur.start.getD [] = cur.getD [] := rfl

theorem next_cases (hm : m ≠ .comment) (h : next m cur c = some (out, m', cur')) :
    (m = .plain ∧ ∃ t, out = cur.close ++ [t] ∧ ∀ ps, t ≠ .word ps) ∨ (out = [] ∧ m' = .comment ∧ cur' = none) ∨
      (out = [] ∧ m' ≠ .comment ∧ cur.getD [] <+: cur'.getD []) := by
  cases m with
  | comment => exact absurd rfl hm
  | plain =>
    rw [next] at h
    split at h
    case h_7 =>
      split_ifs at h <;>
        · obtain ⟨rfl, rfl, rfl⟩ : _ ∧ _ ∧ _ := by simpa [eq_comm] using h
          simp [getD_push]
    case h_8 =>
      split_ifs at h <;>
        · obtain ⟨rfl, rfl, rfl⟩ : _ ∧ _ ∧ _ := by simpa [eq_comm] using h
          simp [getD_push]
    all_goals
      obtain ⟨rfl, rfl, rfl⟩ : _ ∧ _ ∧ _ := by simpa [eq_comm] using h
      simp [getD_start]
  | escape =>
    obtain ⟨rfl, rfl, rfl⟩ : _ ∧ _ ∧ _ := by simpa [next, eq_comm] using h
    split_ifs <;> simp [getD_push]
  | single | double | doubleEscape | dollar | param | command =>
    rw [next] at h
    split_ifs at h
    all_goals
      obtain ⟨rfl, rfl, rfl⟩ : _ ∧ _ ∧ _ := by simpa [eq_comm] using h
      simp [getD_push]

theorem lex_cons_eq_some (h : lex m cur (c :: text) = some ts) :
    ∃ out m' cur' ts', next m cur c = some (out, m', cur') ∧ lex m' cur' text = some ts' ∧ ts = out ++ ts' := by
  rw [lex, Option.bind_eq_some_iff] at h
  obtain ⟨⟨out, m', cur'⟩, hnext, h⟩ := h
  obtain ⟨ts', hts', rfl⟩ := Option.map_eq_some_iff.mp h
  exact ⟨out, m', cur', ts', hnext, hts', rfl⟩

/-- Behind a comment comes a newline. -/
theorem lex_comment (h : lex .comment none text = some (t :: ts)) : t = .newline := by
  induction text with
  | nil => cases h
  | cons c text ih =>
    obtain ⟨out, m', cur', ts', hnext, hlex, heq⟩ := lex_cons_eq_some h
    rw [next] at hnext
    split_ifs at hnext
    · obtain ⟨rfl, rfl, rfl⟩ : _ ∧ _ ∧ _ := by simpa [eq_comm] using hnext
      exact (List.cons.inj heq).1
    · obtain ⟨rfl, rfl, rfl⟩ : _ ∧ _ ∧ _ := by simpa [eq_comm] using hnext
      obtain rfl : ts' = t :: ts := heq.symm
      exact ih hlex

theorem close_append_eq_cons (ht : ∀ ps, t ≠ .word ps) (h : cur.close ++ t :: ts = .word ps :: out) :
    cur = some ps := by
  cases cur with
  | none => exact absurd (List.cons.inj h).1 (ht ps)
  | some u =>
    obtain ⟨hword, -⟩ := List.cons.inj h
    rw [Token.word.inj hword]

theorem lex_cons_word (hm : m ≠ .comment) (h : lex m cur (c :: text) = some (.word ps :: ts)) :
    (m = .plain ∧ cur = some ps) ∨
      ∃ m' cur', next m cur c = some ([], m', cur') ∧ m' ≠ .comment ∧ cur.getD [] <+: cur'.getD [] ∧
        lex m' cur' text = some (.word ps :: ts) := by
  obtain ⟨out, m', cur', ts', hnext, hlex, heq⟩ := lex_cons_eq_some h
  rcases next_cases hm hnext with ⟨hplain, t, rfl, ht⟩ | ⟨rfl, rfl, rfl⟩ | ⟨rfl, hm', hpre⟩
  · rw [List.append_assoc, List.singleton_append] at heq
    exact Or.inl ⟨hplain, close_append_eq_cons ht heq.symm⟩
  · rw [List.nil_append] at heq
    rw [← heq] at hlex
    cases lex_comment hlex
  · rw [List.nil_append] at heq
    rw [← heq] at hlex
    exact Or.inr ⟨m', cur', hnext, hm', hpre, hlex⟩

theorem finish_word (hm : m ≠ .comment) (h : finish m cur = some (.word ps :: ts)) : cur.getD [] <+: ps := by
  cases m with
  | comment => exact absurd rfl hm
  | plain =>
    have hclose : cur.close = .word ps :: ts := Option.some.inj h
    cases cur with
    | none => cases hclose
    | some u =>
      cases hclose
      exact List.prefix_refl _
  | escape =>
    have hclose : (cur.push (.lit '\x5c')).close = .word ps :: ts := Option.some.inj h
    cases hclose
    exact List.prefix_append _ _
  | single | double | doubleEscape | dollar | param | command => cases h

/-- What has been read of a word stays in it. -/
theorem prefix_of_lex_word (hm : m ≠ .comment) (h : lex m cur text = some (.word ps :: ts)) : cur.getD [] <+: ps := by
  induction text generalizing m cur with
  | nil => exact finish_word hm h
  | cons c text ih =>
    rcases lex_cons_word hm h with ⟨-, rfl⟩ | ⟨m', cur', -, hm', hpre, hlex⟩
    · exact List.prefix_refl _
    · exact hpre.trans (ih hm' hlex)

/-- An expansion leaves a piece that is not literal. -/
theorem exists_not_isLit (hm : m = .dollar ∨ (∃ name, m = .param name) ∨ ∃ text, m = .command text)
    (h : lex m cur text = some (.word ps :: ts)) : ∃ p ∈ ps, p.isLit = false := by
  induction text generalizing m cur with
  | nil => rcases hm with rfl | ⟨name, rfl⟩ | ⟨text, rfl⟩ <;> cases h
  | cons c text ih =>
    have hcomment : m ≠ .comment := by rcases hm with rfl | ⟨name, rfl⟩ | ⟨text, rfl⟩ <;> simp
    rcases lex_cons_word hcomment h with ⟨rfl, -⟩ | ⟨m', cur', hnext, hm', -, hlex⟩
    · simp at hm
    · rcases hm with rfl | ⟨name, rfl⟩ | ⟨text, rfl⟩ <;> rw [next] at hnext <;> split_ifs at hnext <;>
        obtain ⟨rfl, rfl⟩ : _ ∧ _ := by simpa [eq_comm] using hnext
      · exact ih (Or.inr (Or.inl ⟨_, rfl⟩)) hlex
      · exact ⟨.param name, (prefix_of_lex_word hm' hlex).subset (by simp [getD_push]), rfl⟩
      · exact ih (Or.inr (Or.inl ⟨_, rfl⟩)) hlex
      · exact ⟨.command text, (prefix_of_lex_word hm' hlex).subset (by simp [getD_push]), rfl⟩
      · exact ih (Or.inr (Or.inr ⟨_, rfl⟩)) hlex

/-! ## How long it is -/

/-- The modes in which characters are read into a word. -/
def Mode.reading : Mode → Bool
  | .plain | .escape | .single | .double | .doubleEscape => true
  | _ => false

theorem not_reading (hm : m ≠ .comment) (h : m.reading = false) :
    m = .dollar ∨ (∃ name, m = .param name) ∨ ∃ text, m = .command text := by
  cases m <;> simp_all [Mode.reading]

/-- The pieces that are in the current word, or are sure to be. -/
def Mode.size (m : Mode) (cur : Word) : ℕ := (cur.getD []).length + if m = .doubleEscape then 1 else 0

def Word.blanks (cur : Word) : ℕ := (cur.getD []).count (.lit ' ')

theorem blanks_push (cur : Word) (c : Char) : (cur.push (.lit c)).blanks = cur.blanks + [c].count ' ' := by
  rw [Word.blanks, getD_push, List.count_append]
  simp [Word.blanks, List.count_singleton]

theorem count_of_kind (h : kind c ≠ .blank) : [c].count ' ' = 0 := by
  rw [List.count_singleton, if_neg]
  intro heq
  rw [eq_of_beq heq] at h
  exact h rfl

theorem size_push (cur : Word) (p : Piece) : ((cur.push p).getD []).length = (cur.getD []).length + 1 := by
  rw [getD_push, List.length_append, List.length_singleton]

/-- A blank is never dropped. -/
theorem next_blanks (hm : m.reading = true) (hm' : m'.reading = true) (h : next m cur c = some ([], m', cur'))
    (hlit : ∀ p ∈ cur'.getD [], p.isLit = true) : cur'.blanks = cur.blanks + [c].count ' ' := by
  cases m with
  | plain =>
    rw [next] at h
    split at h
    case h_4 hkind | h_5 hkind | h_6 hkind =>
      obtain ⟨rfl, rfl⟩ : _ ∧ _ := by simpa [eq_comm] using h
      rw [count_of_kind (by rw [hkind]; decide)]
      rfl
    case h_7 =>
      split_ifs at h
      all_goals
        obtain ⟨rfl, rfl⟩ : _ ∧ _ := by simpa [eq_comm] using h
      · cases hm'
      · cases hm'
      · have hactive := hlit (.active c) (by simp [getD_push])
        cases hactive
    case h_8 =>
      split_ifs at h
      all_goals
        obtain ⟨rfl, rfl⟩ : _ ∧ _ := by simpa [eq_comm] using h
      · cases hm'
      · have hactive := hlit (.active c) (by simp [getD_push])
        cases hactive
      · exact blanks_push cur c
    all_goals simp at h
  | escape =>
    obtain ⟨rfl, rfl⟩ : _ ∧ _ := by simpa [next, eq_comm] using h
    split_ifs with hc
    · rw [hc]
      rfl
    · exact blanks_push cur c
  | single =>
    rw [next] at h
    split_ifs at h with hkind
    all_goals
      obtain ⟨rfl, rfl⟩ : _ ∧ _ := by simpa [eq_comm] using h
    · rw [count_of_kind (by rw [hkind]; decide)]
      rfl
    · exact blanks_push cur c
  | double =>
    rw [next] at h
    split_ifs at h with hkind hkind
    all_goals
      obtain ⟨rfl, rfl⟩ : _ ∧ _ := by simpa [eq_comm] using h
    · rw [count_of_kind (by rw [hkind]; decide)]
      rfl
    · rw [count_of_kind (by rw [hkind]; decide)]
      rfl
    · exact blanks_push cur c
  | doubleEscape =>
    rw [next] at h
    split_ifs at h with hc
    all_goals
      obtain ⟨rfl, rfl⟩ : _ ∧ _ := by simpa [eq_comm] using h
    · rw [hc]
      rfl
    · exact blanks_push cur c
    · exact (blanks_push _ c).trans (congrArg (· + _) (blanks_push cur '\x5c'))
  | comment | dollar | param | command => cases hm

theorem next_size (hm : m.reading = true) (h : next m cur c = some ([], m', cur')) :
    m'.size cur' ≤ m.size cur + 1 := by
  cases m with
  | plain =>
    rw [next] at h
    split at h
    case h_7 =>
      split_ifs at h
      all_goals
        obtain ⟨rfl, rfl⟩ : _ ∧ _ := by simpa [eq_comm] using h
        simp [Mode.size, getD_push]
    case h_8 =>
      split_ifs at h
      all_goals
        obtain ⟨rfl, rfl⟩ : _ ∧ _ := by simpa [eq_comm] using h
        simp [Mode.size, getD_push]
    case h_4 | h_5 | h_6 =>
      obtain ⟨rfl, rfl⟩ : _ ∧ _ := by simpa [eq_comm] using h
      simp [Mode.size, getD_start]
    all_goals simp at h
  | escape =>
    obtain ⟨rfl, rfl⟩ : _ ∧ _ := by simpa [next, eq_comm] using h
    split_ifs <;> simp [Mode.size, getD_push]
  | single | double | doubleEscape =>
    rw [next] at h
    split_ifs at h
    all_goals
      obtain ⟨rfl, rfl⟩ : _ ∧ _ := by simpa [eq_comm] using h
      simp only [Mode.size, size_push, reduceCtorEq, if_true, if_false]
      omega
  | comment | dollar | param | command => cases hm

/-- Outside of quotes, a character that makes the word longer is a literal one, or it is a piece of its own. -/
theorem next_plain (h : next .plain cur c = some ([], m', cur')) (hlit : ∀ p ∈ cur'.getD [], p.isLit = true)
    (hsize : (cur.getD []).length < m'.size cur') : kind c = .literal ∧ m' = .plain ∧ cur' = cur.push (.lit c) := by
  rw [next] at h
  split at h
  case h_7 =>
    split_ifs at h
    all_goals
      obtain ⟨rfl, rfl⟩ : _ ∧ _ := by simpa [eq_comm] using h
    · simp [Mode.size] at hsize
    · simp [Mode.size] at hsize
    · have hactive := hlit (.active c) (by simp [getD_push])
      cases hactive
  case h_8 hkind =>
    split_ifs at h
    all_goals
      obtain ⟨rfl, rfl⟩ : _ ∧ _ := by simpa [eq_comm] using h
    · simp [Mode.size] at hsize
    · have hactive := hlit (.active c) (by simp [getD_push])
      cases hactive
    · exact ⟨hkind, rfl, rfl⟩
  case h_4 | h_5 | h_6 =>
    obtain ⟨rfl, rfl⟩ : _ ∧ _ := by simpa [eq_comm] using h
    simp [Mode.size, getD_start] at hsize
  all_goals simp at h

/-- A word that is followed by a blank which it does not contain has ended before it. -/
theorem length_le_of_lex (hm : m.reading = true) (hlit : ∀ p ∈ ps, p.isLit = true)
    (hblanks : ps.count (.lit ' ') ≤ cur.blanks + w.count ' ')
    (h : lex m cur (w ++ ' ' :: rest) = some (.word ps :: ts)) :
    ps.length ≤ m.size cur + w.length ∧
      (m = .plain → (cur.getD []).length + w.length ≤ ps.length → ∀ c ∈ w, kind c = .literal) := by
  have hcomment : ∀ {m : Mode}, m.reading = true → m ≠ .comment := by
    rintro m hm rfl
    cases hm
  have hreading : ∀ {m' cur' text}, m' ≠ .comment → lex m' cur' text = some (.word ps :: ts) →
      m'.reading = true := by
    intro m' cur' text hm' hlex
    by_contra hnot
    obtain ⟨p, hp, hfalse⟩ := exists_not_isLit (not_reading hm' (Bool.not_eq_true _ ▸ hnot)) hlex
    rw [hlit p hp] at hfalse
    cases hfalse
  induction w generalizing m cur with
  | nil =>
    rcases lex_cons_word (hcomment hm) h with ⟨rfl, rfl⟩ | ⟨m', cur', hnext, hm', hpre, hlex⟩
    · exact ⟨by simp [Mode.size], fun _ _ ↦ by simp⟩
    · -- the blank is in the word
      have hpre' := prefix_of_lex_word hm' hlex
      have hadd := next_blanks hm (hreading hm' hlex) hnext fun p hp ↦ hlit p (hpre'.subset hp)
      have hle : cur'.blanks ≤ ps.count (.lit ' ') := hpre'.sublist.count_le _
      rw [List.count_nil] at hblanks
      rw [List.count_singleton_self] at hadd
      omega
  | cons c w ih =>
    rcases lex_cons_word (hcomment hm) h with ⟨rfl, rfl⟩ | ⟨m', cur', hnext, hm', hpre, hlex⟩
    · refine ⟨by simp [Mode.size], fun _ hle ↦ ?_⟩
      rw [List.length_cons, Option.getD_some] at hle
      omega
    · have hlit' : ∀ p ∈ cur'.getD [], p.isLit = true := fun p hp ↦
        hlit p ((prefix_of_lex_word hm' hlex).subset hp)
      have hread' := hreading hm' hlex
      have hadd := next_blanks hm hread' hnext hlit'
      have hsize := next_size hm hnext
      have hcount : (c :: w).count ' ' = [c].count ' ' + w.count ' ' := by
        rw [← List.singleton_append, List.count_append]
      obtain ⟨hlength, hliteral⟩ := ih hread' (by omega) hlex
      rw [List.length_cons]
      refine ⟨by omega, ?_⟩
      rintro rfl hle
      obtain ⟨hkind, rfl, rfl⟩ := next_plain hnext hlit' (by omega)
      refine List.forall_mem_cons.mpr ⟨hkind, hliteral rfl ?_⟩
      rw [size_push]
      omega

/-! ## Values -/

variable {v : List Char}

theorem scan_literal (u : List Piece) (hw : ∀ c ∈ w, kind c = .literal) :
    scan .plain (some u) w = some ([], .plain, some (u ++ lits w)) := by
  induction w generalizing u with
  | nil => simp [scan, lits]
  | cons c w ih =>
    obtain ⟨hc, hw⟩ := List.forall_mem_cons.mp hw
    have hnext : next .plain (some u) c = some ([], .plain, some (u ++ [.lit c])) := by
      rw [next, hc]
      simp [Word.push]
    rw [scan, hnext, Option.bind_some, ih _ hw]
    simp [lits]

theorem scan_plain (hw : Shell.Plain w) : scan .plain none w = some ([], .plain, some (lits w)) := by
  obtain ⟨c, w, rfl⟩ := List.exists_cons_of_ne_nil hw.ne_nil
  obtain ⟨hc, hlit⟩ := List.forall_mem_cons.mp hw.literal
  obtain ⟨hsharp, htilde⟩ := hw.head c rfl
  have hnext : next .plain none c = some ([], .plain, some [.lit c]) := by
    rw [next, hc]
    simp [hsharp, htilde, Word.push]
  rw [scan, hnext, Option.bind_some, scan_literal _ hlit]
  rfl

theorem scan_single (u : List Piece) (hx : ∀ c ∈ x, kind c ≠ .single) :
    scan .single (some u) x = some ([], .single, some (u ++ lits x)) := by
  induction x generalizing u with
  | nil => simp [scan, lits]
  | cons c x ih =>
    obtain ⟨hc, hx⟩ := List.forall_mem_cons.mp hx
    have hnext : next .single (some u) c = some ([], .single, some (u ++ [.lit c])) := by
      rw [next, if_neg hc]
      rfl
    rw [scan, hnext, Option.bind_some, ih _ hx]
    simp [lits]

theorem isLit_lits : ∀ p ∈ lits w, p.isLit = true := by
  intro p hp
  obtain ⟨c, -, rfl⟩ := List.mem_map.mp hp
  rfl

theorem count_lits : (lits w).count (.lit ' ') = w.count ' ' :=
  List.count_map_of_injective _ _ (fun _ _ ↦ Piece.lit.inj) _

theorem lex_blank_iff :
    lex .plain (some ps) (' ' :: rest) = some (.word ps :: ts) ↔ lex .plain none (' ' :: rest) = some ts := by
  have hword : next .plain (some ps) ' ' = some ([.word ps, .blank], .plain, none) := rfl
  have hnone : next .plain none ' ' = some ([.blank], .plain, none) := rfl
  rw [lex_cons hword, lex_cons hnone, Option.map_eq_some_iff, Option.map_eq_some_iff]
  constructor
  · rintro ⟨ts', hts', heq⟩
    exact ⟨ts', hts', (List.cons.inj heq).2⟩
  · rintro ⟨ts', hts', rfl⟩
    exact ⟨ts', hts', rfl⟩

theorem plain_of_lex (h : lex .plain none (w ++ ' ' :: rest) = some (.word (lits w) :: ts)) : Shell.Plain w := by
  have hliteral : ∀ c ∈ w, kind c = .literal := by
    have hlength := length_le_of_lex rfl isLit_lits (by simp [count_lits, Word.blanks]) h
    exact hlength.2 rfl (by simp [lits])
  cases w with
  | nil =>
    rcases lex_cons_word (by decide) h with ⟨-, hnone⟩ | ⟨m', cur', hnext, -⟩
    · cases hnone
    · cases hnext
  | cons c w =>
    refine ⟨List.cons_ne_nil _ _, hliteral, ?_⟩
    intro d hd
    obtain rfl : c = d := Option.some.inj hd
    rcases lex_cons_word (by decide) h with ⟨-, hnone⟩ | ⟨m', cur', hnext, hm', -, hlex⟩
    · cases hnone
    · rw [next, hliteral c List.mem_cons_self] at hnext
      simp only [and_true] at hnext
      split_ifs at hnext with hsharp htilde
      · obtain ⟨rfl, rfl⟩ : _ ∧ _ := by simpa [eq_comm] using hnext
        exact absurd rfl hm'
      · obtain ⟨rfl, rfl⟩ : _ ∧ _ := by simpa [eq_comm] using hnext
        have hactive := isLit_lits (.active c) ((prefix_of_lex_word hm' hlex).subset (by simp [getD_push]))
        cases hactive
      · exact ⟨hsharp, htilde⟩

/-- A value with a blank behind it is one word of its characters if and only if it is plain. -/
theorem lex_word_iff :
    lex .plain none (w ++ ' ' :: rest) = some (.word (lits w) :: ts) ↔
      Shell.Plain w ∧ lex .plain none (' ' :: rest) = some ts := by
  constructor
  · intro h
    have hplain := plain_of_lex h
    rw [lex_append (scan_plain hplain)] at h
    exact ⟨hplain, lex_blank_iff.mp (by simpa using h)⟩
  · rintro ⟨hplain, h⟩
    rw [lex_append (scan_plain hplain), lex_blank_iff.mpr h]
    rfl

theorem lex_quoted (hx : '\x27' ∉ x) :
    lex .plain none ('\x27' :: (x ++ '\x27' :: text)) = lex .plain (some (lits x)) text := by
  have hbegin : next .plain none '\x27' = some ([], .single, some []) := rfl
  have hend : next .single (some (lits x)) '\x27' = some ([], .plain, some (lits x)) := rfl
  have hscan : scan .single (some []) x = some ([], .single, some (lits x)) :=
    scan_single [] fun c hc hkind ↦ hx (kind_eq_single_iff.mp hkind ▸ hc)
  rw [lex_cons_silent hbegin, lex_append hscan, lex_cons_silent hend]
  exact Option.map_id'

theorem notMem_of_lex (h : lex .plain none ('\x27' :: (x ++ '\x27' :: ' ' :: rest)) = some (.word (lits x) :: ts)) :
    '\x27' ∉ x := by
  intro hmem
  obtain ⟨a, b, rfl, ha⟩ := List.eq_append_cons_of_mem hmem
  -- the quote in the value ends what the first quote began, and the last quote is not a literal character
  have htext : '\x27' :: (a ++ '\x27' :: b ++ '\x27' :: ' ' :: rest) =
      '\x27' :: (a ++ '\x27' :: (b ++ ['\x27'] ++ ' ' :: rest)) := by simp
  rw [htext, lex_quoted ha] at h
  have hlength := length_le_of_lex (m := .plain) rfl isLit_lits (by simp [count_lits, Word.blanks]) h
  have hquote := hlength.2 rfl (by simp [lits]) '\x27' (by simp)
  cases hquote

/-- A value in single quotes is one word of its characters if and only if it has no single quote. -/
theorem lex_quoted_iff :
    lex .plain none ('\x27' :: (x ++ '\x27' :: ' ' :: rest)) = some (.word (lits x) :: ts) ↔
      '\x27' ∉ x ∧ lex .plain none (' ' :: rest) = some ts := by
  constructor
  · intro h
    have hx := notMem_of_lex h
    rw [lex_quoted hx, lex_blank_iff] at h
    exact ⟨hx, h⟩
  · rintro ⟨hx, h⟩
    rw [lex_quoted hx, lex_blank_iff]
    exact h

end ShellScript
