import Vcass.Lib.Strtoull

/-!
# Numbers from a text

`strtol` skips blanks, reads a sign and the longest run of digits, and saturates the number to 64 bits; a text
without a number is 0, and nothing of it has been read. In base 0, the digits say themselves what their base is:
those behind `0x` are hexadecimal, those behind `0` octal, and others decimal.

`atoi` is `strtol` in base 10, cut down to 32 bits.
-/

namespace Strtol

open Strtoull (isBlank sign isX isHex isHex_iff isBlank_of_isHex sign_of_isHex)

/-- The value of a digit or letter, in either case. -/
def digitVal (c : Char) : Option ℕ :=
  if '0'.toNat ≤ c.toNat ∧ c.toNat ≤ '9'.toNat then some (c.toNat - '0'.toNat)
  else if 'a'.toNat ≤ c.toNat ∧ c.toNat ≤ 'z'.toNat then some (c.toNat - 'a'.toNat + 10)
  else if 'A'.toNat ≤ c.toNat ∧ c.toNat ≤ 'Z'.toNat then some (c.toNat - 'A'.toNat + 10)
  else none

def isDigit (base : ℕ) (c : Char) : Bool := (digitVal c).any (· < base)

/-- The number that digits denote, the most significant one first. -/
def number (base : ℕ) (ds : List Char) : ℕ := Nat.ofDigits base (ds.reverse.map fun c ↦ (digitVal c).getD 0)

/-- `LONG_MIN` and `LONG_MAX` are returned for numbers outside of the range. -/
def saturate (n : ℤ) : ℤ := max (-2 ^ 63) (min (2 ^ 63 - 1) n)

/-- The base that the digits ask for, and the digits. The prefix is one only if a digit follows it. -/
def basePrefix : List Char → ℕ × List Char
  | '0' :: x :: c :: cs => if isX x && isDigit 16 c then (16, c :: cs) else (8, '0' :: x :: c :: cs)
  | '0' :: cs => (8, '0' :: cs)
  | cs => (10, cs)

/-- The bases in use. -/
inductive Base
  | zero
  | ten

/-- The base of the digits, and the digits with what follows them. -/
def Base.of : Base → List Char → ℕ × List Char
  | .zero, cs => basePrefix cs
  | .ten, cs => (10, cs)

def signed (neg : Bool) (n : ℕ) : ℤ := if neg then -n else n

/-- The number and what follows it. -/
def strtol (b : Base) (s : List Char) : ℤ × List Char :=
  let (neg, cs) := sign (s.dropWhile isBlank)
  let (base, cs) := b.of cs
  let ds := cs.takeWhile (isDigit base)
  if ds = [] then (0, s)
  else (saturate (signed neg (number base ds)), cs.dropWhile (isDigit base))

/-- The low 32 bits of a `long`, as an `int`. -/
def toInt (n : ℤ) : ℤ := n.bmod (2 ^ 32)

def atoi (s : List Char) : ℤ := toInt (strtol .ten s).1

example : strtol .zero "-0x1fz".toList = (-31, ['z']) := by decide

example : atoi "4294967297".toList = 1 := by decide

/-! ## Digits -/

variable {base : ℕ} {b : Base} {c : Char} {cs ds s : List Char}

theorem digitVal_lt (h : isDigit base c = true) : (digitVal c).getD 0 < base := by
  rw [isDigit, Option.any_eq_true] at h
  obtain ⟨n, hn, hlt⟩ := h
  rw [hn]
  exact of_decide_eq_true hlt

theorem isDigit_mono {base' : ℕ} (hle : base ≤ base') (h : isDigit base c = true) : isDigit base' c = true := by
  rw [isDigit, Option.any_eq_true] at h ⊢
  obtain ⟨n, hn, hlt⟩ := h
  exact ⟨n, hn, decide_eq_true ((of_decide_eq_true hlt).trans_le hle)⟩

theorem isDigit_ten_iff : isDigit 10 c = true ↔ c.isDigit = true := by
  have hchar : c.isDigit = true ↔ 48 ≤ c.toNat ∧ c.toNat ≤ 57 := by
    rw [Char.isDigit, Bool.and_eq_true, decide_eq_true_eq, decide_eq_true_eq]
    exact Iff.rfl
  rw [hchar, isDigit, digitVal]
  simp only [Char.reduceToNat]
  split_ifs with h h' h''
  · simp
    omega
  · simp
    omega
  · simp
    omega
  · simp
    omega

theorem number_cons (base : ℕ) (c : Char) (ds : List Char) :
    number base (c :: ds) = (digitVal c).getD 0 * base ^ ds.length + number base ds := by
  rw [number, List.reverse_cons, List.map_append, Nat.ofDigits_append, List.length_map, List.length_reverse,
    Nat.add_comm, Nat.mul_comm]
  simp [number]

theorem number_lt (h : ∀ c ∈ ds, isDigit base c = true) (hbase : 1 < base) : number base ds < base ^ ds.length := by
  have hlt := @Nat.ofDigits_lt_base_pow_length base (ds.reverse.map fun c ↦ (digitVal c).getD 0) hbase ?_
  · rwa [List.length_map, List.length_reverse] at hlt
  · intro d hd
    obtain ⟨c, hc, rfl⟩ := List.mem_map.mp hd
    exact digitVal_lt (h c (List.mem_reverse.mp hc))

/-! ## Texts of digits -/

theorem saturate_natCast (n : ℕ) : saturate n = (min (2 ^ 63 - 1) n : ℕ) := by
  rw [saturate]
  omega

theorem isHex_of_isDigit (h : isDigit 10 c = true) : isHex c = true := by
  rw [isDigit_ten_iff, Char.isDigit, Bool.and_eq_true, decide_eq_true_eq, decide_eq_true_eq] at h
  exact isHex_iff.mpr (.inl ⟨h.1, h.2⟩)

/-- A text of decimal digits is read whole, and only saturated. -/
theorem strtol_digits (h : ∀ c ∈ ds, isDigit 10 c = true) (hne : ds ≠ []) :
    strtol .ten ds = (((min (2 ^ 63 - 1) (number 10 ds) : ℕ) : ℤ), []) := by
  obtain ⟨c, cs, rfl⟩ := List.exists_cons_of_ne_nil hne
  have hc := h c List.mem_cons_self
  have hblank : (c :: cs).dropWhile isBlank = c :: cs :=
    List.dropWhile_cons_of_neg (by rw [isBlank_of_isHex (isHex_of_isDigit hc)]; decide)
  have htake : (c :: cs).takeWhile (isDigit 10) = c :: cs := List.takeWhile_eq_self_iff.mpr h
  have hdrop : (c :: cs).dropWhile (isDigit 10) = [] := List.dropWhile_eq_nil_iff.mpr h
  rw [strtol, hblank, sign_of_isHex (isHex_of_isDigit hc)]
  simp only [Base.of, htake, hdrop, if_neg hne, signed, Bool.false_eq_true, if_false, saturate_natCast]

/-! ## What is read of a text -/

def negative (s : List Char) : Bool := (sign (s.dropWhile isBlank)).1

/-- What follows the blanks and the sign. -/
def body (s : List Char) : List Char := (sign (s.dropWhile isBlank)).2

/-- The decimal number at the beginning of a text, 0 if there is none. -/
def leading (s : List Char) : ℤ := signed (negative s) (number 10 ((body s).takeWhile (isDigit 10)))

theorem atoi_eq (s : List Char) : atoi s = toInt (saturate (leading s)) := by
  have hten : strtol .ten s = if (body s).takeWhile (isDigit 10) = [] then (0, s)
      else (saturate (leading s), (body s).dropWhile (isDigit 10)) := rfl
  rw [atoi, hten]
  split_ifs with hnil
  · rw [leading, hnil]
    cases negative s <;> rfl
  · rfl

/-- A text that is read whole in base 0, as a number that is not 0, consists of digits of its base. -/
theorem strtol_zero_whole {n : ℤ} {base : ℕ} (hbase : basePrefix (body s) = (base, ds))
    (h : strtol .zero s = (n, [])) (hn : n ≠ 0) :
    (∀ c ∈ ds, isDigit base c = true) ∧ n = saturate (signed (negative s) (number base ds)) := by
  have hzero : strtol .zero s =
      if (basePrefix (body s)).2.takeWhile (isDigit (basePrefix (body s)).1) = [] then (0, s)
      else (saturate (signed (negative s)
          (number (basePrefix (body s)).1 ((basePrefix (body s)).2.takeWhile (isDigit (basePrefix (body s)).1)))),
        (basePrefix (body s)).2.dropWhile (isDigit (basePrefix (body s)).1)) := rfl
  rw [hzero, hbase] at h
  by_cases hnil : ds.takeWhile (isDigit base) = []
  · rw [if_pos hnil] at h
    exact absurd (Prod.ext_iff.mp h).1.symm hn
  · rw [if_neg hnil] at h
    obtain ⟨hvalue, hrest⟩ := Prod.ext_iff.mp h
    have hall := List.dropWhile_eq_nil_iff.mp hrest
    have htake : ds.takeWhile (isDigit base) = ds := List.takeWhile_eq_self_iff.mpr hall
    simp only [htake] at hvalue
    exact ⟨hall, hvalue.symm⟩

theorem basePrefix_cases (cs : List Char) :
    basePrefix cs = (10, cs) ∨ basePrefix cs = (8, cs) ∨
      ∃ x c ds, isX x = true ∧ cs = '0' :: x :: c :: ds ∧ basePrefix cs = (16, c :: ds) := by
  unfold basePrefix
  split
  · rename_i x c ds
    split_ifs with hx
    · exact Or.inr (Or.inr ⟨x, c, ds, (Bool.and_eq_true_iff.mp hx).1, rfl, rfl⟩)
    · exact Or.inr (Or.inl rfl)
  · exact Or.inr (Or.inl rfl)
  · exact Or.inl rfl

theorem isDigit_of_isX {x : Char} (h : isX x = true) : isDigit 10 x = false := by
  rw [isX, Bool.or_eq_true, decide_eq_true_eq, decide_eq_true_eq] at h
  rcases h with rfl | rfl
  · decide
  · decide

/-! ## Octal digits read as decimal ones -/

theorem number_mono {base' : ℕ} (hle : base ≤ base') (ds : List Char) : number base ds ≤ number base' ds := by
  induction ds with
  | nil => rfl
  | cons c ds ih =>
    rw [number_cons, number_cons]
    exact Nat.add_le_add (Nat.mul_le_mul_left _ (Nat.pow_le_pow_left hle _)) ih

theorem pow_le_number_cons (hd : 0 < (digitVal c).getD 0) : base ^ ds.length ≤ number base (c :: ds) := by
  rw [number_cons]
  exact (Nat.le_mul_of_pos_left _ hd).trans (Nat.le_add_right _ _)

/-- Digits denote the same number in both bases if only the last one counts. -/
theorem number_ten_eq_iff (h : ∀ c ∈ ds, isDigit 8 c = true) : number 10 ds = number 8 ds ↔ number 8 ds < 8 := by
  induction ds with
  | nil => exact ⟨fun _ ↦ by decide, fun _ ↦ rfl⟩
  | cons c ds ih =>
    obtain ⟨hc, hds⟩ := List.forall_mem_cons.mp h
    rcases Nat.eq_zero_or_pos ((digitVal c).getD 0) with hzero | hpos
    · rw [number_cons, number_cons, hzero, Nat.zero_mul, Nat.zero_mul, Nat.zero_add, Nat.zero_add]
      exact ih hds
    · cases ds with
      | nil =>
        have hlt := digitVal_lt hc
        rw [number_cons, number_cons]
        simpa [number] using hlt
      | cons d ds =>
        have hlen : (d :: ds).length ≠ 0 := by simp
        have hpow : 8 ≤ 8 ^ (d :: ds).length := Nat.le_self_pow hlen 8
        have hbig : 8 ^ (d :: ds).length ≤ number 8 (c :: d :: ds) := pow_le_number_cons hpos
        have hmore : (digitVal c).getD 0 * 8 ^ (d :: ds).length < (digitVal c).getD 0 * 10 ^ (d :: ds).length :=
          Nat.mul_lt_mul_of_pos_left (Nat.pow_lt_pow_left (by decide) hlen) hpos
        have hmono := number_mono (by decide : 8 ≤ 10) (d :: ds)
        have hne : number 10 (c :: d :: ds) ≠ number 8 (c :: d :: ds) := by
          rw [number_cons 10, number_cons 8]
          omega
        exact ⟨fun heq ↦ absurd heq hne, fun hlt ↦ by omega⟩

/-- Up to two octal digits count. -/
theorem number_ten_lt (h : ∀ c ∈ ds, isDigit 8 c = true) (hlt : number 8 ds < 8 ^ 2) : number 10 ds < 10 ^ 2 := by
  induction ds with
  | nil => decide
  | cons c ds ih =>
    obtain ⟨hc, hds⟩ := List.forall_mem_cons.mp h
    rcases Nat.eq_zero_or_pos ((digitVal c).getD 0) with hzero | hpos
    · rw [number_cons, hzero, Nat.zero_mul, Nat.zero_add] at hlt ⊢
      exact ih hds hlt
    · have hlen : ds.length < 2 :=
        (Nat.pow_lt_pow_iff_right (by decide)).mp ((pow_le_number_cons hpos).trans_lt hlt)
      have hdigits : ∀ c' ∈ c :: ds, isDigit 10 c' = true := fun c' hc' ↦ isDigit_mono (by decide) (h c' hc')
      calc number 10 (c :: ds) < 10 ^ (c :: ds).length := number_lt hdigits (by decide)
        _ ≤ 10 ^ 2 := Nat.pow_le_pow_right (by decide) hlen

end Strtol
