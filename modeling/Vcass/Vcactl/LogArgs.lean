import Mathlib.Algebra.Order.BigOperators.Group.List
import Vcass.Lib.ShellQuotes
import Vcass.Vcactl.NetConfig

/-!
# The arguments in the log of commands

`log_args` writes each command with its arguments to a log of lines whose fields are separated by tabs. The arguments
are quoted for a shell: one that is not just letters, digits and a few other characters gets single quotes around
it. A single quote in it becomes three of them, since in C++ the backslash of the text that is put in only escapes the
quote behind it; to a shell, these end the quoted text and begin it again twice, and stand for nothing.

Still, no two commands are written alike.
-/

namespace Vcass.Vcactl.LogArgs

open NetConfig (replaceAll replaceAll_singleton)
open Shell

/-! ## The code -/

/-- A character that is no reason to quote. -/
def isSafe (c : Char) : Bool := c.isAlphanum || c = '/' || c = '.' || c = '_' || c = '-'

def needsEscape (s : List Char) : Bool := s.any (fun c ↦ !isSafe c) || s = []

def simplyQuote (s : List Char) : List Char :=
  if needsEscape s then
    let s := replaceAll s ['\t'] "TABULATOR".toList
    let s := replaceAll s ['\x27'] ['\x27', '\x27', '\x27']
    '\x27' :: (s ++ ['\x27'])
  else s

/-- The other fields of a line. -/
structure Entry where
  time : List Char
  pid : List Char
  uptime : List Char
  parentCmds : List Char
  argv0 : List Char

/-- What is written behind `argv[0]`. -/
def loggedArgs (args : List (List Char)) : List Char := args.flatMap fun arg ↦ ' ' :: simplyQuote arg

/-- The line that is written. -/
def logArgs (e : Entry) (args : List (List Char)) : List Char :=
  e.time ++ '\t' :: e.pid ++ '\t' :: e.uptime ++ '\t' :: e.parentCmds ++ '\t' :: e.argv0 ++ loggedArgs args ++
    ['\r', '\n']

/-! ## The property -/

/-- A shell gets the arguments back, and the line is that of no other ones. -/
structure Faithful (args : List (List Char)) : Prop where
  split : splitWords (loggedArgs args) = some args
  unique : ∀ e args', (∀ arg ∈ args', '\t' ∉ arg) → logArgs e args' = logArgs e args → args' = args

/-! ## One argument -/

variable {arg arg' : List Char} {args args' : List (List Char)} {c : Char} {rest rest' : List Char}

/-- A single quote becomes three. -/
def tripled (s : List Char) : List Char := s.flatMap fun c ↦ if c = '\x27' then ['\x27', '\x27', '\x27'] else [c]

/-- A replacement of what is not there. -/
theorem flatMap_of_notMem {q : Char} (h : q ∉ arg) (by' : List Char) :
    (arg.flatMap fun c ↦ if c = q then by' else [c]) = arg := by
  have hself : ∀ c ∈ arg, (if c = q then by' else [c]) = [c] := by
    intro c hc
    apply if_neg
    rintro rfl
    exact h hc
  rw [List.flatMap_congr hself]
  exact List.flatMap_singleton' arg

theorem simplyQuote_of_needsEscape (h : needsEscape arg = true) (htab : '\t' ∉ arg) :
    simplyQuote arg = '\x27' :: (tripled arg ++ ['\x27']) := by
  have hsame : replaceAll arg ['\t'] "TABULATOR".toList = arg := by
    rw [replaceAll_singleton, flatMap_of_notMem htab]
  rw [simplyQuote, if_pos h, hsame]
  exact congrArg (fun s ↦ '\x27' :: (s ++ ['\x27'])) (replaceAll_singleton _ _ _)

theorem simplyQuote_of_safe (h : ¬ needsEscape arg = true) : simplyQuote arg = arg := if_neg h

theorem not_needsEscape_iff : ¬ needsEscape arg = true ↔ arg ≠ [] ∧ ∀ c ∈ arg, isSafe c = true := by
  rw [needsEscape, Bool.or_eq_true, not_or, List.any_eq_true]
  simp only [Bool.not_eq_true', decide_eq_true_eq, not_exists, not_and, Bool.not_eq_false]
  exact and_comm

theorem kind_of_isSafe (h : isSafe c = true) : kind c = .literal ∧ c ≠ '#' ∧ c ≠ '~' := by
  refine ⟨?_, ?_, ?_⟩
  · unfold kind
    split
    all_goals first | rfl | cases h
  · rintro rfl
    cases h
  · rintro rfl
    cases h

/-- An argument without quotes around it stands for itself. -/
theorem plain_of_safe (h : ¬ needsEscape arg = true) : Plain arg := by
  obtain ⟨hne, hsafe⟩ := not_needsEscape_iff.mp h
  refine ⟨hne, fun c hc ↦ (kind_of_isSafe (hsafe c hc)).1, fun c hc ↦ ?_⟩
  exact (kind_of_isSafe (hsafe c (List.mem_of_mem_head? hc))).2

theorem others_tripled (arg : List Char) : others (tripled arg) = others arg := by
  induction arg with
  | nil => rfl
  | cons c arg ih =>
    rw [tripled, List.flatMap_cons, others_append, others_cons]
    by_cases hc : c = '\x27'
    · rw [if_pos hc, if_pos hc]
      exact (Nat.zero_add _).trans ih
    · have hone : others [c] = 1 := (others_cons c []).trans (congrArg _ (if_neg hc))
      rw [if_neg hc, if_neg hc, hone, Nat.add_comm]
      exact congrArg (· + 1) ih

/-- The characters that are put in are quotes. -/
theorem others_simplyQuote (htab : '\t' ∉ arg) : others (simplyQuote arg) = others arg := by
  by_cases h : needsEscape arg = true
  · have hquote : others ['\x27'] = 0 := rfl
    rw [simplyQuote_of_needsEscape h htab, others_cons, if_pos rfl, others_append, others_tripled, hquote]
    rfl
  · rw [simplyQuote_of_safe h]

/-! ## Words of the text -/

theorem lex_simplyQuote (htab : '\t' ∉ arg) (hquote : '\x27' ∉ arg) :
    lex .plain none (simplyQuote arg ++ rest) = lex .plain (some arg) rest := by
  by_cases h : needsEscape arg = true
  · have htripled : tripled arg = arg := flatMap_of_notMem hquote _
    rw [simplyQuote_of_needsEscape h htab, htripled, List.cons_append, List.append_assoc]
    exact lex_quoted hquote
  · rw [simplyQuote_of_safe h]
    exact (plain_of_safe h).lex

theorem lex_loggedArgs (htab : ∀ arg ∈ args, '\t' ∉ arg) (hquote : ∀ arg ∈ args, '\x27' ∉ arg) (cur : Word) :
    lex .plain cur (loggedArgs args) = .ok (cur.close ++ args.flatMap fun w ↦ [.blank, .word w]) := by
  induction args generalizing cur with
  | nil => rw [loggedArgs, List.flatMap_nil, lex_plain_nil, List.flatMap_nil, List.append_nil]
  | cons arg args ih =>
    obtain ⟨htab, htabs⟩ := List.forall_mem_cons.mp htab
    obtain ⟨hquote, hquotes⟩ := List.forall_mem_cons.mp hquote
    have hblank : next .plain cur ' ' = some (cur.close ++ [.blank], .plain, none) := rfl
    have hrest := ih htabs hquotes (some arg)
    rw [loggedArgs] at hrest ⊢
    rw [List.flatMap_cons, List.cons_append, lex_cons hblank, lex_simplyQuote htab hquote, hrest]
    exact congrArg Except.ok (List.append_assoc _ _ _)

theorem others_loggedArgs (htab : ∀ arg ∈ args, '\t' ∉ arg) :
    others (loggedArgs args) = (args.map fun arg ↦ 1 + others arg).sum := by
  induction args with
  | nil => rfl
  | cons arg args ih =>
    obtain ⟨htab, htabs⟩ := List.forall_mem_cons.mp htab
    have hblank : others (' ' :: simplyQuote arg) = 1 + others arg := by
      rw [others_cons, others_simplyQuote htab, Nat.add_comm]
      rfl
    rw [List.map_cons, List.sum_cons, ← ih htabs, ← hblank, ← others_append]
    rfl

/-- A quote in a word needs a character more than the text has. -/
theorem notMem_of_split (htab : ∀ arg ∈ args, '\t' ∉ arg) (h : splitWords (loggedArgs args) = some args) :
    ∀ arg ∈ args, '\x27' ∉ arg := by
  have hcost : (args.map wordCost).sum ≤ (args.map fun arg ↦ 1 + others arg).sum := by
    rw [← others_loggedArgs htab]
    cases args with
    | nil => exact Nat.zero_le _
    | cons arg args => exact cost_le_of_splitWords h
  intro arg harg hquote
  have hle : ∀ w ∈ args, 1 + others w ≤ wordCost w := fun w _ ↦ Nat.le_add_right _ _
  have hlt : 1 + others arg < wordCost arg := by
    rw [wordCost, if_pos hquote]
    exact Nat.lt_succ_self _
  exact absurd hcost (Nat.not_le_of_lt (List.sum_lt_sum _ _ hle ⟨arg, harg, hlt⟩))

/-! ## Two commands -/

/-- What follows an argument in the text. -/
def Ends (rest : List Char) : Prop := ∀ c ∈ rest.head?, c = ' '

theorem ends_loggedArgs (args : List (List Char)) : Ends (loggedArgs args) := by
  intro c hc
  cases args with
  | nil => cases hc
  | cons arg args => exact (Option.some.inj hc).symm

theorem tripled_quote (arg : List Char) :
    tripled ('\x27' :: arg) = '\x27' :: '\x27' :: '\x27' :: tripled arg := rfl

theorem tripled_cons (hc : c ≠ '\x27') (arg : List Char) : tripled (c :: arg) = c :: tripled arg := by
  rw [tripled, List.flatMap_cons, if_neg hc]
  rfl

/-- The quote at the end of an argument is not one of three. -/
theorem end_ne_tripled (hrest : Ends rest) : '\x27' :: rest ≠ tripled (c :: arg) ++ '\x27' :: rest' := by
  intro h
  by_cases hc : c = '\x27'
  · subst hc
    rw [tripled_quote] at h
    have hquote : '\x27' = ' ' := hrest '\x27' (by rw [(List.cons.inj h).2]; rfl)
    exact absurd hquote (by decide)
  · rw [tripled_cons hc] at h
    exact hc (List.cons.inj h).1.symm

/-- Where a quoted argument ends can be seen from what comes behind. -/
theorem tripled_inj (hrest : Ends rest) (hrest' : Ends rest')
    (h : tripled arg ++ '\x27' :: rest = tripled arg' ++ '\x27' :: rest') : arg = arg' ∧ rest = rest' := by
  induction arg generalizing arg' with
  | nil =>
    cases arg' with
    | nil => exact ⟨rfl, (List.cons.inj h).2⟩
    | cons c arg' => exact absurd h (end_ne_tripled hrest)
  | cons c arg ih =>
    cases arg' with
    | nil => exact absurd h.symm (end_ne_tripled hrest')
    | cons c' arg' =>
      by_cases hc : c = '\x27'
      · by_cases hc' : c' = '\x27'
        · subst hc hc'
          rw [tripled_quote, tripled_quote] at h
          obtain ⟨rfl, hend⟩ := ih (List.cons.inj (List.cons.inj (List.cons.inj h).2).2).2
          exact ⟨rfl, hend⟩
        · rw [hc, tripled_quote, tripled_cons hc'] at h
          exact absurd (List.cons.inj h).1.symm hc'
      · by_cases hc' : c' = '\x27'
        · rw [hc', tripled_quote, tripled_cons hc] at h
          exact absurd (List.cons.inj h).1 hc
        · rw [tripled_cons hc, tripled_cons hc'] at h
          obtain ⟨rfl, htail⟩ := List.cons.inj h
          obtain ⟨rfl, hend⟩ := ih htail
          exact ⟨rfl, hend⟩

/-- A safe argument ends at the first character that is not safe. -/
theorem safe_inj (hsafe : ∀ c ∈ arg, isSafe c = true) (hsafe' : ∀ c ∈ arg', isSafe c = true) (hrest : Ends rest)
    (hrest' : Ends rest') (h : arg ++ rest = arg' ++ rest') : arg = arg' ∧ rest = rest' := by
  have htake {arg rest : List Char} (hsafe : ∀ c ∈ arg, isSafe c = true) (hrest : Ends rest) :
      (arg ++ rest).takeWhile isSafe = arg := by
    rw [List.takeWhile_append_of_pos hsafe]
    cases rest with
    | nil => exact List.append_nil _
    | cons c rest =>
      obtain rfl : c = ' ' := hrest c rfl
      exact List.append_nil _
  have harg : arg = arg' := by
    rw [← htake hsafe hrest, h, htake hsafe' hrest']
  subst harg
  exact ⟨rfl, List.append_cancel_left h⟩

theorem simplyQuote_inj (htab : '\t' ∉ arg) (htab' : '\t' ∉ arg') (hrest : Ends rest) (hrest' : Ends rest')
    (h : simplyQuote arg ++ rest = simplyQuote arg' ++ rest') : arg = arg' ∧ rest = rest' := by
  have hmixed {arg arg' rest rest' : List Char} (hsafe : ¬ needsEscape arg = true) :
      arg ++ rest ≠ '\x27' :: (tripled arg' ++ ['\x27']) ++ rest' := by
    obtain ⟨hne, hchars⟩ := not_needsEscape_iff.mp hsafe
    obtain ⟨c, arg, rfl⟩ := List.exists_cons_of_ne_nil hne
    intro h
    have hsafe : isSafe c = true := hchars c List.mem_cons_self
    rw [(List.cons.inj h).1] at hsafe
    cases hsafe
  by_cases hneeds : needsEscape arg = true
  · by_cases hneeds' : needsEscape arg' = true
    · rw [simplyQuote_of_needsEscape hneeds htab, simplyQuote_of_needsEscape hneeds' htab', List.cons_append,
        List.cons_append, List.append_assoc, List.append_assoc] at h
      exact tripled_inj hrest hrest' (List.cons.inj h).2
    · rw [simplyQuote_of_needsEscape hneeds htab, simplyQuote_of_safe hneeds'] at h
      exact absurd h.symm (hmixed hneeds')
  · by_cases hneeds' : needsEscape arg' = true
    · rw [simplyQuote_of_safe hneeds, simplyQuote_of_needsEscape hneeds' htab'] at h
      exact absurd h (hmixed hneeds)
    · rw [simplyQuote_of_safe hneeds, simplyQuote_of_safe hneeds'] at h
      exact safe_inj (not_needsEscape_iff.mp hneeds).2 (not_needsEscape_iff.mp hneeds').2 hrest hrest' h

/-- The text is that of one list of arguments. -/
theorem loggedArgs_inj (htab : ∀ arg ∈ args, '\t' ∉ arg) (htab' : ∀ arg ∈ args', '\t' ∉ arg)
    (h : loggedArgs args = loggedArgs args') : args = args' := by
  induction args generalizing args' with
  | nil =>
    cases args' with
    | nil => rfl
    | cons arg' args' => cases h
  | cons arg args ih =>
    cases args' with
    | nil => cases h
    | cons arg' args' =>
      obtain ⟨htab, htabs⟩ := List.forall_mem_cons.mp htab
      obtain ⟨htab', htabs'⟩ := List.forall_mem_cons.mp htab'
      have htext : simplyQuote arg ++ loggedArgs args = simplyQuote arg' ++ loggedArgs args' := (List.cons.inj h).2
      obtain ⟨rfl, hrest⟩ := simplyQuote_inj htab htab' (ends_loggedArgs _) (ends_loggedArgs _) htext
      rw [ih htabs htabs' hrest]

/-- The log tells any two commands apart; a shell gets the arguments back if and only if none has a single quote. -/
theorem log_args_faithful_iff (args : List (List Char)) (htab : ∀ arg ∈ args, '\t' ∉ arg) :
    (Faithful args ↔ ∀ arg ∈ args, '\x27' ∉ arg) ∧
      ∀ e args', (∀ arg ∈ args', '\t' ∉ arg) → logArgs e args' = logArgs e args → args' = args := by
  have hunique : ∀ e args', (∀ arg ∈ args', '\t' ∉ arg) → logArgs e args' = logArgs e args → args' = args := by
    intro e args' htab' h
    exact loggedArgs_inj htab' htab (List.append_cancel_left (List.append_cancel_right h))
  refine ⟨?_, hunique⟩
  constructor
  · intro h
    exact notMem_of_split htab h.split
  · intro hquote
    exact ⟨splitWords_of_lex (lex_loggedArgs htab hquote none), hunique⟩

theorem log_args_faithful_blank :
    (∀ arg ∈ ["a b".toList, [], "$(c)".toList], '\t' ∉ arg) ∧ Faithful ["a b".toList, [], "$(c)".toList] :=
  ⟨by decide, (log_args_faithful_iff _ (by decide)).1.mpr (by decide)⟩

/-- The quote is lost, and the text ends between quotes. -/
theorem quoted_quote_not_faithful : (∀ arg ∈ ["a\x27b".toList], '\t' ∉ arg) ∧ ¬ Faithful ["a\x27b".toList] := by
  refine ⟨by decide, fun h ↦ ?_⟩
  exact notMem_of_split (by decide) h.split "a\x27b".toList List.mem_cons_self (by decide)

end Vcass.Vcactl.LogArgs
