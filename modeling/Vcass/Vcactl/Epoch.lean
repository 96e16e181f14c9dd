import Vcass.Lib.Strtoull

/-!
# The owner epoch

An owner epoch is a number of 128 bits. `epoch_from_string` cuts the text before its last 16 characters and scans
the halves on their own, without a look at where the scans stop.

So what counts is that a half begins with a digit. Keywords that are mistyped often do: `factory-defaul` is an
epoch, as it begins with `fac`.
-/

namespace Vcass.Vcactl

open Strtoull

/-- The last 16 characters. -/
def lowerStr (str : List Char) : List Char := str.drop (str.length - 16)

def upperStr (str : List Char) : List Char := str.take (str.length - 16)

def tmpUpper (str : List Char) : Option ℕ := if upperStr str = [] then some 0 else stoull (upperStr str)

/-- The upper and the lower half. An exception of `stoull` is caught. -/
def epochFromString (str : List Char) : Option (ℕ × ℕ) :=
  (stoull (lowerStr str)).bind fun lower ↦ (tmpUpper str).map fun upper ↦ (upper, lower)

/-- Up to 32 digits, after an optional prefix in either case. -/
def IsNumeral (str ds : List Char) : Prop :=
  (str = ds ∨ ∃ x, isX x = true ∧ str = '0' :: x :: ds) ∧ ds ≠ [] ∧ ds.length ≤ 32 ∧ ∀ c ∈ ds, isHex c = true

/-- What the parser is for: it accepts numerals only, all those without a prefix among them, and with the number
that they denote. -/
structure ParsesEpoch (str : List Char) : Prop where
  sound : ∀ upper lower, epochFromString str = some (upper, lower) →
    ∃ ds, IsNumeral str ds ∧ upper * 2 ^ 64 + lower = number ds
  complete : IsNumeral str str → ∃ upper lower, epochFromString str = some (upper, lower)

section Epoch

variable {str ds : List Char} {x : Char} {upper lower : ℕ}

theorem epochFromString_eq_some_iff :
    epochFromString str = some (upper, lower) ↔ stoull (lowerStr str) = some lower ∧ tmpUpper str = some upper := by
  rw [epochFromString, Option.bind_eq_some_iff]
  constructor
  · rintro ⟨l, hl, hupper⟩
    obtain ⟨u, hu, heq⟩ := Option.map_eq_some_iff.mp hupper
    obtain ⟨rfl, rfl⟩ := Prod.mk.inj heq
    exact ⟨hl, hu⟩
  · rintro ⟨hl, hu⟩
    exact ⟨lower, hl, by rw [hu]; rfl⟩

theorem number_halves (ds : List Char) :
    number (ds.take (ds.length - 16)) * 2 ^ 64 + number (ds.drop (ds.length - 16)) = number ds := by
  have hcut := number_append (ds.take (ds.length - 16)) (ds.drop (ds.length - 16))
  rw [List.take_append_drop] at hcut
  rw [hcut]
  by_cases hlen : ds.length ≤ 16
  · have hzero : number (ds.take (ds.length - 16)) = 0 := by
      rw [Nat.sub_eq_zero_of_le hlen, List.take_zero]
      rfl
    rw [hzero, Nat.zero_mul, Nat.zero_mul]
  · have hdrop : (ds.drop (ds.length - 16)).length = 16 := by
      rw [List.length_drop]
      omega
    rw [hdrop]
    norm_num

theorem epochFromString_digits (hne : ds ≠ []) (hlen : ds.length ≤ 32) (hhex : ∀ c ∈ ds, isHex c = true) :
    ∃ upper lower, epochFromString ds = some (upper, lower) ∧ upper * 2 ^ 64 + lower = number ds := by
  have hpos := List.length_pos_iff.mpr hne
  refine ⟨number (upperStr ds), number (lowerStr ds), ?_, number_halves ds⟩
  have hlower : stoull (lowerStr ds) = some (number (lowerStr ds)) := by
    apply stoull_digits
    · exact fun c hc ↦ hhex c (List.mem_of_mem_drop hc)
    · rw [lowerStr, Ne, List.drop_eq_nil_iff]
      omega
    · rw [lowerStr, List.length_drop]
      omega
  apply epochFromString_eq_some_iff.mpr
  refine ⟨hlower, ?_⟩
  rw [tmpUpper]
  split_ifs with hupper
  · rw [hupper]
    rfl
  · refine stoull_digits (fun c hc ↦ hhex c (List.mem_of_mem_take hc)) hupper ?_
    change (ds.take (ds.length - 16)).length ≤ 16
    rw [List.length_take]
    omega

/-- Digits after a prefix: the prefix is in the upper half, or in the lower one if that is all. A text that is cut
within the prefix is refused. -/
theorem epochFromString_prefixed (hx : isX x = true) (hne : ds ≠ []) (hlen : ds.length ≤ 32)
    (hhex : ∀ c ∈ ds, isHex c = true) (h : epochFromString ('0' :: x :: ds) = some (upper, lower)) :
    upper * 2 ^ 64 + lower = number ds := by
  obtain ⟨hlower, hupper⟩ := epochFromString_eq_some_iff.mp h
  rw [lowerStr, List.length_cons, List.length_cons] at hlower
  rw [tmpUpper, upperStr, List.length_cons, List.length_cons] at hupper
  rcases Nat.lt_trichotomy ds.length 15 with hless | heq | hmore
  · -- all of it is the lower half
    have hcut : ds.length + 1 + 1 - 16 = 0 := by omega
    rw [hcut, List.drop_zero, stoull_prefixed hx hhex hne (by omega)] at hlower
    rw [hcut, List.take_zero, if_pos rfl] at hupper
    rw [← Option.some_inj.mp hlower, ← Option.some_inj.mp hupper, Nat.zero_mul, Nat.zero_add]
  · -- the cut is within the prefix, and the lower half starts with its letter
    have hcut : ds.length + 1 + 1 - 16 = 1 := by omega
    rw [hcut, List.drop_one, List.tail_cons, stoull_of_isX hx] at hlower
    cases hlower
  · -- the prefix is in the upper half
    have hcut : ds.length + 1 + 1 - 16 = ds.length - 16 + 1 + 1 := by omega
    have hdrop : ds.drop (ds.length - 16) ≠ [] := by
      rw [Ne, List.drop_eq_nil_iff]
      omega
    rw [hcut, List.drop_succ_cons, List.drop_succ_cons,
      stoull_digits (fun c hc ↦ hhex c (List.mem_of_mem_drop hc)) hdrop (by rw [List.length_drop]; omega)] at hlower
    rw [hcut, List.take_succ_cons, List.take_succ_cons, if_neg (List.cons_ne_nil _ _)] at hupper
    have hnumber : stoull ('0' :: x :: ds.take (ds.length - 16)) = some (number (ds.take (ds.length - 16))) := by
      by_cases htake : ds.take (ds.length - 16) = []
      · rw [htake, stoull_prefix hx]
        rfl
      · apply stoull_prefixed hx (fun c hc ↦ hhex c (List.mem_of_mem_take hc)) htake
        rw [List.length_take]
        omega
    rw [hnumber] at hupper
    rw [← Option.some_inj.mp hlower, ← Option.some_inj.mp hupper]
    exact number_halves ds

theorem length_lowerStr_le (str : List Char) : (lowerStr str).length ≤ 16 := by
  rw [lowerStr, List.length_drop]
  omega

/-- **The owner epoch.** The parser does what it is for if the text is a numeral, if one of its halves does not begin
with a digit behind blanks and a sign, or if the upper half is too large, and in no other case. -/
theorem parsesEpoch_iff (str : List Char) :
    ParsesEpoch str ↔
      (∃ ds, IsNumeral str ds) ∨ NoDigit (lowerStr str) ∨
        (upperStr str ≠ [] ∧ (NoDigit (upperStr str) ∨ 2 ^ 64 ≤ number (digits (upperStr str)))) := by
  rw [← stoull_eq_none_iff, ← stoull_eq_none_iff_of_length_le (length_lowerStr_le str)]
  constructor
  · intro h
    by_contra hnot
    rw [not_or, not_or] at hnot
    obtain ⟨hnumeral, hlower, hupper⟩ := hnot
    obtain ⟨lower, hlower⟩ := Option.ne_none_iff_exists'.mp hlower
    have hsome : ∃ upper, tmpUpper str = some upper := by
      rw [tmpUpper]
      split_ifs with hnil
      · exact ⟨0, rfl⟩
      · exact Option.ne_none_iff_exists'.mp fun hnone ↦ hupper ⟨hnil, hnone⟩
    obtain ⟨upper, hupper⟩ := hsome
    -- both halves are numbers, so the text is accepted, and has to be a numeral
    obtain ⟨ds, hds, -⟩ := h.sound upper lower (epochFromString_eq_some_iff.mpr ⟨hlower, hupper⟩)
    exact hnumeral ⟨ds, hds⟩
  · intro h
    have hcomplete : IsNumeral str str → ∃ upper lower, epochFromString str = some (upper, lower) := by
      rintro ⟨-, hne, hlen, hhex⟩
      obtain ⟨upper, lower, hsome, -⟩ := epochFromString_digits hne hlen hhex
      exact ⟨upper, lower, hsome⟩
    refine ⟨?_, hcomplete⟩
    intro upper lower hsome
    rcases h with ⟨ds, hds⟩ | hlower | ⟨hne, hupper⟩
    · refine ⟨ds, hds, ?_⟩
      obtain ⟨rfl | ⟨x, hx, rfl⟩, hne, hlen, hhex⟩ := hds
      · obtain ⟨u, l, hsome', hvalue⟩ := epochFromString_digits hne hlen hhex
        obtain ⟨rfl, rfl⟩ := Prod.mk.inj (Option.some_inj.mp (hsome.symm.trans hsome'))
        exact hvalue
      · exact epochFromString_prefixed hx hne hlen hhex hsome
    · cases hlower.symm.trans (epochFromString_eq_some_iff.mp hsome).1
    · have hnone := (epochFromString_eq_some_iff.mp hsome).2
      rw [tmpUpper, if_neg hne, hupper] at hnone
      cases hnone

theorem mistyped_keyword_accepted :
    epochFromString "factory-defaul".toList = some (0, 0xfac) ∧ ¬ ParsesEpoch "factory-defaul".toList := by
  have hsome : epochFromString "factory-defaul".toList = some (0, 0xfac) := by decide +kernel
  refine ⟨hsome, ?_⟩
  intro h
  obtain ⟨ds, ⟨hstr, -, -, hhex⟩, -⟩ := h.sound 0 0xfac hsome
  rcases hstr with rfl | ⟨x, -, hstr⟩
  · exact absurd (hhex 't' (by decide)) (by decide)
  · exact absurd (List.cons.inj hstr).1 (by decide)

end Epoch

end Vcass.Vcactl
