import Mathlib.Data.Nat.Digits.Defs
import Mathlib.Data.List.TakeWhile

/-!
# Numbers in base 16 from a text

`stoull` follows `strtoull` in base 16: blanks, a sign and a prefix `0x` may come first, and the scan stops at the
first character that is not a digit. It fails only if there is no digit or the number does not fit into 64 bits.
What follows the digits is not looked at.

A text is a list of characters. Of a text of digits, with or without the prefix, `stoull` is the number that the
digits denote.
-/

namespace Strtoull

/-- The value of a digit, in either case. -/
def hexVal (c : Char) : Option ℕ :=
  if '0'.toNat ≤ c.toNat ∧ c.toNat ≤ '9'.toNat then some (c.toNat - '0'.toNat)
  else if 'a'.toNat ≤ c.toNat ∧ c.toNat ≤ 'f'.toNat then some (c.toNat - 'a'.toNat + 10)
  else if 'A'.toNat ≤ c.toNat ∧ c.toNat ≤ 'F'.toNat then some (c.toNat - 'A'.toNat + 10)
  else none

def isHex (c : Char) : Bool := (hexVal c).isSome

/-- The number that digits denote, the most significant one first. -/
def number (ds : List Char) : ℕ := Nat.ofDigits 16 (ds.reverse.map fun c ↦ (hexVal c).getD 0)

def isBlank (c : Char) : Bool := c = ' ' || ('\t'.toNat ≤ c.toNat && c.toNat ≤ '\r'.toNat)

/-- An optional sign, and what follows it. -/
def sign : List Char → Bool × List Char
  | '-' :: cs => (true, cs)
  | '+' :: cs => (false, cs)
  | cs => (false, cs)

def isX (c : Char) : Bool := c = 'x' || c = 'X'

/-- The prefix is one only if a digit follows it. -/
def skipPrefix : List Char → List Char
  | '0' :: x :: c :: cs => if isX x && isHex c then c :: cs else '0' :: x :: c :: cs
  | cs => cs

def stoull (cs : List Char) : Option ℕ :=
  let (neg, cs) := sign (cs.dropWhile isBlank)
  let ds := (skipPrefix cs).takeWhile isHex
  if ds = [] ∨ 2 ^ 64 ≤ number ds then none
  else some (if neg then (2 ^ 64 - number ds) % 2 ^ 64 else number ds)

/-- The digits that the number is made of. -/
def digits (cs : List Char) : List Char := (skipPrefix (sign (cs.dropWhile isBlank)).2).takeWhile isHex

/-- What stands behind the blanks and the sign does not begin with a digit. -/
def NoDigit (cs : List Char) : Prop := ∀ c ∈ (sign (cs.dropWhile isBlank)).2.head?, isHex c = false

variable {c x : Char} {cs ds es : List Char}

theorem hexVal_lt {n : ℕ} (h : hexVal c = some n) : n < 16 := by
  simp only [hexVal, Char.reduceToNat] at h
  split_ifs at h <;> · obtain rfl := Option.some_inj.mp h; omega

theorem isHex_iff : isHex c = true ↔
    (48 ≤ c.toNat ∧ c.toNat ≤ 57) ∨ (97 ≤ c.toNat ∧ c.toNat ≤ 102) ∨ (65 ≤ c.toNat ∧ c.toNat ≤ 70) := by
  simp only [isHex, hexVal, Char.reduceToNat]
  split_ifs with h h' h''
  · simp [h]
  · simp [h']
  · simp [h'']
  · simp [h, h', h'']

/-- A digit is neither a blank, nor a sign, nor the letter of the prefix. -/
theorem isBlank_of_isHex (h : isHex c = true) : isBlank c = false := by
  have hc := isHex_iff.mp h
  have hne : c ≠ ' ' := by
    rintro rfl
    revert hc
    decide
  rw [isBlank, decide_eq_false hne, Bool.false_or, Bool.and_eq_false_iff]
  simp only [Char.reduceToNat, decide_eq_false_iff_not]
  omega

theorem sign_of_isHex (h : isHex c = true) : sign (c :: cs) = (false, c :: cs) := by
  rw [sign]
  · intro cs' heq
    rw [(List.cons.inj heq).1] at h
    exact absurd h (by decide)
  · intro cs' heq
    rw [(List.cons.inj heq).1] at h
    exact absurd h (by decide)

theorem isHex_of_isX (h : isX x = true) : isHex x = false := by
  rw [isX, Bool.or_eq_true, decide_eq_true_eq, decide_eq_true_eq] at h
  rcases h with rfl | rfl
  · decide
  · decide

theorem skipPrefix_of_digits (h : ∀ c ∈ ds, isHex c = true) : skipPrefix ds = ds := by
  unfold skipPrefix
  split
  · rename_i x c cs
    have hx : isX x = false := by
      by_contra hx
      rw [Bool.not_eq_false] at hx
      exact absurd (h x (List.mem_cons_of_mem _ List.mem_cons_self)) (by rw [isHex_of_isX hx]; decide)
    rw [hx, Bool.false_and, if_neg Bool.false_ne_true]
  · rfl

theorem takeWhile_digits (h : ∀ c ∈ ds, isHex c = true) : ds.takeWhile isHex = ds :=
  List.takeWhile_eq_self_iff.mpr h

theorem number_append (ds es : List Char) : number (ds ++ es) = number ds * 16 ^ es.length + number es := by
  rw [number, List.reverse_append, List.map_append, Nat.ofDigits_append, List.length_map, List.length_reverse]
  change number es + _ * number ds = _
  rw [Nat.add_comm, Nat.mul_comm]

theorem number_lt (h : ∀ c ∈ ds, isHex c = true) : number ds < 16 ^ ds.length := by
  have hlt := @Nat.ofDigits_lt_base_pow_length 16 (ds.reverse.map fun c ↦ (hexVal c).getD 0) (by decide) ?_
  · rwa [List.length_map, List.length_reverse] at hlt
  · intro d hd
    obtain ⟨c, hc, rfl⟩ := List.mem_map.mp hd
    obtain ⟨n, hn⟩ := Option.isSome_iff_exists.mp (h c (List.mem_reverse.mp hc))
    rw [hn]
    exact hexVal_lt hn

theorem number_lt_of_length_le (h : ∀ c ∈ ds, isHex c = true) (hlen : ds.length ≤ 16) : number ds < 2 ^ 64 :=
  calc number ds < 16 ^ ds.length := number_lt h
    _ ≤ 16 ^ 16 := Nat.pow_le_pow_right (by decide) hlen
    _ = 2 ^ 64 := by norm_num

theorem stoull_of_isHex (h : isHex c = true) : stoull (c :: cs) =
    if (skipPrefix (c :: cs)).takeWhile isHex = [] ∨ 2 ^ 64 ≤ number ((skipPrefix (c :: cs)).takeWhile isHex) then none
    else some (number ((skipPrefix (c :: cs)).takeWhile isHex)) := by
  have hblank : (c :: cs).dropWhile isBlank = c :: cs := by
    rw [List.dropWhile_cons_of_neg]
    rw [isBlank_of_isHex h]
    exact Bool.false_ne_true
  rw [stoull, hblank, sign_of_isHex h]
  rfl

theorem stoull_digits (h : ∀ c ∈ ds, isHex c = true) (hne : ds ≠ []) (hlen : ds.length ≤ 16) :
    stoull ds = some (number ds) := by
  cases ds with
  | nil => exact absurd rfl hne
  | cons c cs =>
    rw [stoull_of_isHex (h c List.mem_cons_self), skipPrefix_of_digits h, takeWhile_digits h, if_neg]
    rw [not_or]
    exact ⟨hne, Nat.not_le.mpr (number_lt_of_length_le h hlen)⟩

theorem stoull_prefix (hx : isX x = true) : stoull ['0', x] = some 0 := by
  rw [stoull_of_isHex (by decide), skipPrefix]
  · rw [List.takeWhile_cons_of_pos (by decide), List.takeWhile_cons_of_neg (by rw [isHex_of_isX hx]; decide)]
    decide
  · intro x c cs h
    cases h

theorem stoull_prefixed (hx : isX x = true) (h : ∀ c ∈ ds, isHex c = true) (hne : ds ≠ []) (hlen : ds.length ≤ 16) :
    stoull ('0' :: x :: ds) = some (number ds) := by
  cases ds with
  | nil => exact absurd rfl hne
  | cons c cs =>
    -- the zero is scanned as a digit first, and skipped with the letter since a digit follows
    rw [stoull_of_isHex (by decide), skipPrefix, hx, h c List.mem_cons_self, Bool.and_self, if_pos rfl,
      takeWhile_digits h, if_neg]
    rw [not_or]
    exact ⟨hne, Nat.not_le.mpr (number_lt_of_length_le h hlen)⟩

theorem stoull_of_isX (hx : isX x = true) : stoull (x :: cs) = none := by
  rw [isX, Bool.or_eq_true, decide_eq_true_eq, decide_eq_true_eq] at hx
  rcases hx with rfl | rfl
  · rfl
  · rfl

/-! ## When there is no number -/

/-- A prefix begins with a digit. -/
theorem takeWhile_skipPrefix_eq_nil_iff (cs : List Char) :
    (skipPrefix cs).takeWhile isHex = [] ↔ ∀ c ∈ cs.head?, isHex c = false := by
  have hzero : isHex '0' = true := by decide
  unfold skipPrefix
  split
  · rename_i x c cs
    simp only [List.head?_cons, Option.mem_some_iff, forall_eq', hzero, Bool.true_eq_false, iff_false]
    split_ifs with hx
    · rw [List.takeWhile_cons_of_pos (Bool.and_eq_true_iff.mp hx).2]
      exact List.cons_ne_nil _ _
    · rw [List.takeWhile_cons_of_pos hzero]
      exact List.cons_ne_nil _ _
  · cases cs with
    | nil => simp
    | cons c cs =>
      rw [List.takeWhile_cons]
      cases hc : isHex c <;> simp [hc]

theorem stoull_eq_none_iff : stoull cs = none ↔ NoDigit cs ∨ 2 ^ 64 ≤ number (digits cs) := by
  rw [NoDigit, ← takeWhile_skipPrefix_eq_nil_iff, stoull]
  dsimp only
  rw [← digits, ite_eq_left_iff]
  simp only [reduceCtorEq, imp_false, not_not]

theorem sign_suffix (cs : List Char) : (sign cs).2 <:+ cs := by
  unfold sign
  split
  · exact List.suffix_cons _ _
  · exact List.suffix_cons _ _
  · exact List.suffix_rfl

theorem skipPrefix_suffix (cs : List Char) : skipPrefix cs <:+ cs := by
  unfold skipPrefix
  split
  · split_ifs
    · exact (List.suffix_cons _ _).trans (List.suffix_cons _ _)
    · exact List.suffix_rfl
  · exact List.suffix_rfl

theorem length_digits_le (cs : List Char) : (digits cs).length ≤ cs.length :=
  calc (digits cs).length ≤ (skipPrefix (sign (cs.dropWhile isBlank)).2).length := (List.takeWhile_prefix _).length_le
    _ ≤ (sign (cs.dropWhile isBlank)).2.length := (skipPrefix_suffix _).length_le
    _ ≤ (cs.dropWhile isBlank).length := (sign_suffix _).length_le
    _ ≤ cs.length := (List.dropWhile_suffix _).length_le

/-- A number of up to 16 digits fits. -/
theorem stoull_eq_none_iff_of_length_le (hlen : cs.length ≤ 16) : stoull cs = none ↔ NoDigit cs := by
  rw [stoull_eq_none_iff, or_iff_left]
  have hhex : ∀ c ∈ digits cs, isHex c = true := fun c hc ↦ List.mem_takeWhile_imp hc
  exact Nat.not_le.mpr (number_lt_of_length_le hhex ((length_digits_le cs).trans hlen))

end Strtoull
