import Mathlib.Algebra.Order.Ring.Nat
import Mathlib.Algebra.BigOperators.Group.List.Basic
import Vcass.Lib.Shell

/-!
# Single quotes in the words of a text

A single quote gets into a word only behind a backslash or between double quotes. The character that lets it in is
then in no word. So a text whose words have single quotes has other characters than quotes that are in none of
them: `cost_le_of_lex` counts these, one for each word with a single quote.
-/

namespace Shell

/-- The word of a token. -/
def Token.toWord : Token → Option (List Char)
  | .word w => some w
  | _ => none

/-- A word, or what is between two words. -/
def Token.isSpaced : Token → Bool
  | .word _ | .blank => true
  | _ => false

/-- The words of a text that consists of words only. -/
def splitWords (text : List Char) : Option (List (List Char)) :=
  match lex .plain none text with
  | .ok ts => if ts.all Token.isSpaced then some (ts.filterMap Token.toWord) else none
  | .error _ => none

/-! ## Quoted words -/

theorem lex_single {x rest : List Char} (hx : '\x27' ∉ x) (u : List Char) :
    lex .single (some u) (x ++ '\x27' :: rest) = lex .plain (some (u ++ x)) rest := by
  induction x generalizing u with
  | nil =>
    have hnext : next .single (some u) '\x27' = some ([], .plain, some u) := rfl
    rw [List.nil_append, List.append_nil, lex_cons_silent hnext]
  | cons c x ih =>
    obtain ⟨hc, hx⟩ := List.ne_and_not_mem_of_not_mem_cons hx
    have hkind : kind c ≠ .single := fun hkind ↦ hc (kind_eq_single_iff.mp hkind).symm
    have hnext : next .single (some u) c = some ([], .single, some (u ++ [c])) := by
      rw [next, if_neg hkind]
      rfl
    rw [List.cons_append, lex_cons_silent hnext, ih hx, List.append_assoc, List.singleton_append]

theorem lex_quoted {x rest : List Char} (hx : '\x27' ∉ x) :
    lex .plain none ('\x27' :: (x ++ '\x27' :: rest)) = lex .plain (some x) rest := by
  have hnext : next .plain none '\x27' = some ([], .single, some []) := rfl
  rw [lex_cons_silent hnext, lex_single hx]
  rfl

/-! ## What a word costs -/

/-- The characters that are no single quotes. -/
def others (w : List Char) : ℕ := w.countP (· ≠ '\x27')

/-- The characters of the text that a word needs, with the blank before it. -/
def wordCost (w : List Char) : ℕ := 1 + others w + if '\x27' ∈ w then 1 else 0

def Token.cost : Token → ℕ
  | .word w => wordCost w
  | _ => 0

def cost (ts : List Token) : ℕ := (ts.map Token.cost).sum

def Word.cost : Word → ℕ
  | none => 1
  | some w => wordCost w

/-- What has been paid for the current word; between double quotes, also for a quote that may come. -/
def Mode.paid : Mode → Word → ℕ
  | .plain, cur | .single, cur | .comment, cur => cur.cost
  | .escape, cur => cur.cost + 1
  | .double, cur => 2 + others (cur.getD [])
  | .doubleEscape, cur => 3 + others (cur.getD [])

variable {m m' : Mode} {cur cur' : Word} {text : List Char} {out ts : List Token} {c : Char} {w : List Char}

theorem others_cons (c : Char) (w : List Char) : others (c :: w) = others w + if c = '\x27' then 0 else 1 := by
  rw [others, List.countP_cons, others]
  by_cases hc : c = '\x27'
  · rw [if_pos hc, if_neg (by simp [hc])]
  · rw [if_neg hc, if_pos (by simp [hc])]

theorem others_append (v w : List Char) : others (v ++ w) = others v + others w := List.countP_append

theorem others_push (cur : Word) (c : Char) :
    others ((cur.push c).getD []) = others (cur.getD []) + if c = '\x27' then 0 else 1 := by
  have hlast : others [c] = if c = '\x27' then 0 else 1 := (others_cons c []).trans (Nat.zero_add _)
  rw [← hlast]
  exact others_append _ _

/-- Every word costs as many characters as it has that are no quotes, and the blank. -/
theorem le_cost (cur : Word) : 1 + others (cur.getD []) ≤ cur.cost ∧ cur.cost ≤ 2 + others (cur.getD []) := by
  cases cur with
  | none => exact ⟨Nat.le_refl _, by decide⟩
  | some w =>
    simp only [Word.cost, wordCost, Option.getD_some]
    split_ifs <;> omega

/-- A quote makes a word dearer only if it is the first one. -/
theorem cost_push_le (cur : Word) (c : Char) : (cur.push c).cost ≤ cur.cost + 1 := by
  cases cur with
  | none =>
    by_cases hc : c = '\x27'
    · subst hc
      decide
    · have hnotMem : '\x27' ∉ [c] := fun hmem ↦ hc (List.mem_singleton.mp hmem).symm
      simp [Word.push, Word.cost, wordCost, hc, hnotMem, others]
  | some w =>
    have hothers := others_push (some w) c
    simp only [Word.push, Option.getD_some] at hothers
    simp only [Word.push, Word.cost, wordCost, Option.getD_some, hothers, List.mem_append, List.mem_singleton]
    by_cases hc : c = '\x27'
    · rw [if_pos hc]
      split_ifs <;> omega
    · have hiff : ('\x27' ∈ w ∨ '\x27' = c) ↔ '\x27' ∈ w := or_iff_left (Ne.symm hc)
      rw [if_neg hc, if_congr hiff rfl rfl]
      omega

theorem cost_append (ts ts' : List Token) : cost (ts ++ ts') = cost ts + cost ts' := by
  rw [cost, List.map_append, List.sum_append, cost, cost]

theorem cost_close_le (cur : Word) : cost cur.close ≤ cur.cost := by
  cases cur with
  | none => exact Nat.zero_le _
  | some w => exact Nat.le_of_eq (Nat.add_zero _)

/-- The end of a word pays for the blank before the next one. -/
theorem cost_delimiter {t : Token} (ht : t.cost = 0) (cur : Word) :
    cost (cur.close ++ [t]) + Word.cost none ≤ cur.cost + 1 := by
  have hclose := cost_close_le cur
  have hlast : cost [t] = 0 := by
    rw [cost, List.map_singleton, List.sum_singleton, ht]
  rw [cost_append, hlast]
  exact Nat.add_le_add_right hclose 1

theorem cost_start_le (cur : Word) : cur.start.cost ≤ cur.cost := by
  cases cur with
  | none => exact Nat.le_refl _
  | some w => exact Nat.le_refl _

/-- A step pays for what it does, with its character if that is no quote. -/
theorem next_cost (h : next m cur c = some (out, m', cur')) :
    cost out + m'.paid cur' ≤ m.paid cur + if c = '\x27' then 0 else 1 := by
  have hnil : cost [] = 0 := rfl
  have hnone : Word.cost none = 1 := rfl
  have hle := le_cost cur
  have hpush := cost_push_le cur c
  have hothers := others_push cur c
  have hquote : kind c ≠ .single → c ≠ '\x27' := by
    rintro hkind rfl
    exact hkind rfl
  cases m with
  | plain =>
    rw [next] at h
    cases hkind : kind c with
    | expansion =>
      rw [hkind] at h
      cases h
    | blank | newline | operator =>
      simp only [hkind, Option.some.injEq, Prod.mk.injEq] at h
      obtain ⟨rfl, rfl, rfl⟩ := h
      rw [if_neg (hquote (by rw [hkind]; decide))]
      exact cost_delimiter rfl cur
    | single =>
      simp only [hkind, Option.some.injEq, Prod.mk.injEq] at h
      obtain ⟨rfl, rfl, rfl⟩ := h
      have hstart := cost_start_le cur
      simp only [Mode.paid, hnil]
      omega
    | backslash | double =>
      simp only [hkind, Option.some.injEq, Prod.mk.injEq] at h
      obtain ⟨rfl, rfl, rfl⟩ := h
      rw [if_neg (hquote (by rw [hkind]; decide))]
      simp only [Mode.paid, Word.start, Option.getD_some, hnil]
      omega
    | literal =>
      simp only [hkind] at h
      rw [if_neg (hquote (by rw [hkind]; decide))]
      split_ifs at h with hsharp htilde
      · simp only [Option.some.injEq, Prod.mk.injEq] at h
        obtain ⟨rfl, rfl, rfl⟩ := h
        simp only [Mode.paid, hnil, hnone]
        omega
      · simp only [Option.some.injEq, Prod.mk.injEq] at h
        obtain ⟨rfl, rfl, rfl⟩ := h
        simp only [Mode.paid, hnil]
        omega
  | escape =>
    simp only [next, Option.some.injEq, Prod.mk.injEq] at h
    obtain ⟨rfl, rfl, rfl⟩ := h
    simp only [Mode.paid, hnil]
    split_ifs <;> omega
  | single =>
    rw [next] at h
    split_ifs at h with hkind
    · simp only [Option.some.injEq, Prod.mk.injEq] at h
      obtain ⟨rfl, rfl, rfl⟩ := h
      simp only [Mode.paid, hnil]
      omega
    · simp only [Option.some.injEq, Prod.mk.injEq] at h
      obtain ⟨rfl, rfl, rfl⟩ := h
      rw [if_neg (hquote hkind)]
      simp only [Mode.paid, hnil]
      omega
  | double =>
    rw [next] at h
    split_ifs at h with hdouble hback
    · simp only [Option.some.injEq, Prod.mk.injEq] at h
      obtain ⟨rfl, rfl, rfl⟩ := h
      simp only [Mode.paid, hnil]
      omega
    · simp only [Option.some.injEq, Prod.mk.injEq] at h
      obtain ⟨rfl, rfl, rfl⟩ := h
      rw [if_neg (hquote (by rw [hback]; decide))]
      simp only [Mode.paid, hnil]
      omega
    · simp only [Option.some.injEq, Prod.mk.injEq] at h
      obtain ⟨rfl, rfl, rfl⟩ := h
      simp only [Mode.paid, hnil, hothers]
      omega
  | doubleEscape =>
    rw [next] at h
    split_ifs at h
    · simp only [Option.some.injEq, Prod.mk.injEq] at h
      obtain ⟨rfl, rfl, rfl⟩ := h
      simp only [Mode.paid, hnil]
      omega
    · simp only [Option.some.injEq, Prod.mk.injEq] at h
      obtain ⟨rfl, rfl, rfl⟩ := h
      simp only [Mode.paid, hnil, hothers]
      omega
    · simp only [Option.some.injEq, Prod.mk.injEq] at h
      obtain ⟨rfl, rfl, rfl⟩ := h
      have hback : others ((cur.push '\x5c').getD []) = others (cur.getD []) + 1 := others_push cur '\x5c'
      simp only [Mode.paid, hnil, others_push, hback]
      omega
  | comment =>
    rw [next] at h
    split_ifs at h
    · simp only [Option.some.injEq, Prod.mk.injEq] at h
      obtain ⟨rfl, rfl, rfl⟩ := h
      have hnewline : cost [Token.newline] = 0 := rfl
      simp only [Mode.paid, hnone, hnewline]
      omega
    · simp only [Option.some.injEq, Prod.mk.injEq] at h
      obtain ⟨rfl, rfl, rfl⟩ := h
      simp only [Mode.paid, hnil]
      omega

theorem cost_of_lex_nil (h : lex m cur [] = .ok ts) : cost ts ≤ m.paid cur := by
  have hclose := cost_close_le cur
  cases m with
  | plain | comment =>
    rw [lex] at h
    cases h
    exact hclose
  | escape =>
    rw [lex] at h
    cases h
    exact Nat.le_trans (cost_close_le _) (cost_push_le cur '\x5c')
  | single | double | doubleEscape =>
    rw [lex] at h
    cases h

/-- What the tokens cost has been paid before, or is paid by the characters that are no quotes. -/
theorem cost_le_of_lex (h : lex m cur text = .ok ts) : cost ts ≤ m.paid cur + others text := by
  induction text generalizing m cur ts with
  | nil => exact cost_of_lex_nil h
  | cons c text ih =>
    obtain ⟨out, m', cur', ts', hnext, hlex, rfl⟩ := lex_cons_ok h
    have hout := next_cost hnext
    have hrest := ih hlex
    rw [cost_append, others_cons]
    omega

/-! ## The words of a text -/

variable {ws : List (List Char)}

theorem cost_eq_sum (ts : List Token) : cost ts = ((ts.filterMap Token.toWord).map wordCost).sum := by
  induction ts with
  | nil => rfl
  | cons t ts ih =>
    have hcons : cost (t :: ts) = t.cost + cost ts := List.sum_cons
    rw [hcons, ih]
    cases t with
    | word w => rfl
    | blank | newline | op => exact Nat.zero_add _

/-- Words behind a blank need no more than the text has. -/
theorem cost_le_of_splitWords (h : splitWords (' ' :: text) = some ws) :
    (ws.map wordCost).sum ≤ others (' ' :: text) := by
  rw [splitWords] at h
  cases hlex : lex .plain none (' ' :: text) with
  | error e =>
    rw [hlex] at h
    cases h
  | ok ts =>
    obtain ⟨out, m', cur', ts', hnext, hlex', rfl⟩ := lex_cons_ok hlex
    have hblank : next .plain none ' ' = some ([.blank], .plain, none) := rfl
    obtain ⟨rfl, rfl, rfl⟩ : [Token.blank] = out ∧ Mode.plain = m' ∧ none = cur' := by simpa [hblank] using hnext
    simp only [hlex] at h
    split_ifs at h
    have hwords : ([Token.blank] ++ ts').filterMap Token.toWord = ws := Option.some.inj h
    have hcost : cost ts' ≤ 1 + others text := cost_le_of_lex hlex'
    have hothers : others (' ' :: text) = others text + 1 := others_cons ' ' text
    rw [← hwords, ← cost_eq_sum, cost_append, hothers]
    have hone : cost [Token.blank] = 0 := rfl
    omega

theorem splitWords_of_lex (h : lex .plain none text = .ok (ws.flatMap fun w ↦ [.blank, .word w])) :
    splitWords text = some ws := by
  have hall : (ws.flatMap fun w ↦ [Token.blank, .word w]).all Token.isSpaced = true := by
    rw [List.all_flatMap]
    exact List.all_eq_true.mpr fun w _ ↦ rfl
  have hwords : (ws.flatMap fun w ↦ [Token.blank, .word w]).filterMap Token.toWord = ws := by
    rw [List.filterMap_flatMap]
    exact List.flatMap_singleton' ws
  simp only [splitWords, h, hall, hwords, if_true]

end Shell
