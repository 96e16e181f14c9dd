import Vcass.Vcactl.ConfigChange

/-!
# Ids on the command line

An id is a text of digits of any length. It is converted by `atoi`, which keeps the low 32 bits, and then it is
looked at as a signed number: whether there is such a card, whether it is not above the last CPU, whether it lies in
a range.

So an id that does not fit is not always refused, and then the command acts on another card or CPU.
-/

namespace Vcass.Vcactl.Ids

open PowerButton (decimal)
open ConfigChange (getNumber)
open Strtol

/-! ## The code -/

inductive ParsingOutput
  | parsed
  | notParsed
  | parsingFailed
  deriving DecidableEq, Repr

structure ArgsHolder where
  cmdName : String
  /-- Names with their texts. -/
  holder : List (String × List Char)
  deriving DecidableEq, Repr

/-- What the devices answer. -/
structure Devices where
  cardExists : ℤ → Bool
  /-- The number of CPUs of a card that can be opened. -/
  cpuNum : ℕ → Option ℕ

def maxCpu : ℕ := 3

def cardIdArg : String := "card_id"

def cpuIdArg : String := "cpu_id"

def smbIdArg : String := "smb_id"

/-- The value is passed as an `unsigned int`, and becomes a text as an `int`. -/
def ArgsHolder.addArg (h : ArgsHolder) (name : String) (value : ℤ) : ArgsHolder :=
  { h with holder := h.holder ++ [(name, decimal (toInt (value % 2 ^ 32)))] }

/-- The first argument of the name. -/
def ArgsHolder.find (h : ArgsHolder) (name : String) : Option (List Char) :=
  (h.holder.find? (·.1 = name)).map Prod.snd

def isUnsignedNumber (str : List Char) : Bool := str.all Char.isDigit && str ≠ []

variable (dev : Devices)

def getLastCpu (card : ℕ) : ℤ :=
  match dev.cpuNum card with
  | some cpuNum => (if cpuNum < maxCpu then cpuNum else maxCpu : ℕ) - 1
  | none => -1

def optionalCardId (arg : List Char) (h : ArgsHolder) : ParsingOutput × ArgsHolder :=
  if isUnsignedNumber arg = false then (.notParsed, h)
  else
    let cardId := atoi arg
    if h.cmdName ≠ "config" ∧ dev.cardExists cardId = false then (.parsingFailed, h)
    else (.parsed, h.addArg cardIdArg cardId)

def optionalCpuId (arg : List Char) (h : ArgsHolder) : ParsingOutput × ArgsHolder :=
  if isUnsignedNumber arg = false then (.notParsed, h)
  else
    match h.find cardIdArg with
    | none => (.notParsed, h)
    | some cardId =>
      let cpuId := atoi arg
      if getLastCpu dev (getNumber cardId) < cpuId then (.parsingFailed, h)
      else (.parsed, h.addArg cpuIdArg cpuId)

def requiresSmbId (arg : List Char) (h : ArgsHolder) : ParsingOutput × ArgsHolder :=
  if isUnsignedNumber arg = false then (.parsingFailed, h)
  else
    let smbId := atoi arg
    if 7 < smbId ∨ smbId < 0 then (.parsingFailed, h) else (.parsed, h.addArg smbIdArg smbId)

/-! ## The property -/

/-- The argument that is stored is the number that the digits denote. -/
def Stores (r : ParsingOutput × ArgsHolder) (h : ArgsHolder) (name : String) (arg : List Char) : Prop :=
  r.1 = .parsed → r.2 = { h with holder := h.holder ++ [(name, decimal (number 10 arg))] }

/-- Ids are taken at face value, and that of a CPU is one of the card's. -/
structure Right (arg : List Char) (h : ArgsHolder) : Prop where
  card : Stores (optionalCardId dev arg h) h cardIdArg arg
  cpu : Stores (optionalCpuId dev arg h) h cpuIdArg arg
  cpu_le : (optionalCpuId dev arg h).1 = .parsed →
    ∃ card, h.find cardIdArg = some card ∧ (number 10 arg : ℤ) ≤ getLastCpu dev (getNumber card)
  smb : Stores (requiresSmbId arg h) h smbIdArg arg

/-! ## When it holds -/

/-- The low 32 bits of the number, or of `LONG_MAX` if it is larger, with a sign. -/
def wrapped (n : ℕ) : ℤ := toInt (saturate n)

/-- The id fits, or what is left of it is refused, too. -/
structure Refused (n : ℕ) (h : ArgsHolder) : Prop where
  card : h.cmdName ≠ "config" ∧ dev.cardExists (wrapped n) = false
  cpu : ∀ card, h.find cardIdArg = some card → getLastCpu dev (getNumber card) < wrapped n
  smb : 7 < wrapped n ∨ wrapped n < 0

def FaceValue (arg : List Char) (h : ArgsHolder) : Prop :=
  isUnsignedNumber arg = true → number 10 arg < 2 ^ 31 ∨ Refused dev (number 10 arg) h

/-! ## The conversion -/

variable {dev} {arg : List Char} {h : ArgsHolder} {n : ℕ} {z : ℤ} {name : String}

theorem atoi_of_isUnsignedNumber (harg : isUnsignedNumber arg = true) : atoi arg = wrapped (number 10 arg) := by
  obtain ⟨hdigits, hne⟩ : (∀ c ∈ arg, c.isDigit = true) ∧ arg ≠ [] := by simpa [isUnsignedNumber] using harg
  rw [atoi, strtol_digits (fun c hc ↦ isDigit_ten_iff.mpr (hdigits c hc)) hne, ← saturate_natCast, wrapped]

theorem wrapped_eq_iff : wrapped n = n ↔ n < 2 ^ 31 := by
  constructor
  · intro heq
    have hlt : toInt (saturate n) < ((2 ^ 32 : ℕ) + 1) / 2 := Int.bmod_lt (by decide)
    rw [wrapped] at heq
    rw [heq] at hlt
    omega
  · intro hlt
    rw [wrapped, saturate_natCast, Nat.min_eq_right (by omega), toInt, Int.bmod_eq_of_le] <;> omega

theorem toInt_wrapped (n : ℕ) : toInt (wrapped n % 2 ^ 32) = wrapped n := by
  have hmod : toInt (wrapped n % 2 ^ 32) = toInt (wrapped n) := Int.emod_bmod _ (2 ^ 32)
  rw [hmod, wrapped]
  exact Int.bmod_bmod

theorem decimal_eq_iff : decimal z = decimal (n : ℤ) ↔ z = n := by
  constructor
  · intro heq
    rw [PowerButton.decimal_natCast] at heq
    cases z with
    | ofNat m =>
      have hval : Nat.ofDigitChars 10 (Nat.toDigits 10 m) 0 = Nat.ofDigitChars 10 (Nat.toDigits 10 n) 0 :=
        congrArg (Nat.ofDigitChars 10 · 0) heq
      rw [Nat.ofDigitChars_ten_toDigits, Nat.ofDigitChars_ten_toDigits] at hval
      exact congrArg Int.ofNat hval
    | negSucc m =>
      have hminus : '-' ∈ Nat.toDigits 10 n := heq ▸ List.mem_cons_self
      exact absurd (PowerButton.isDigit_decimal hminus) (by decide)
  · rintro rfl
    rfl

theorem addArg_eq_iff :
    h.addArg name (wrapped n) = { h with holder := h.holder ++ [(name, decimal n)] } ↔ n < 2 ^ 31 := by
  rw [ArgsHolder.addArg, toInt_wrapped, ← wrapped_eq_iff, ← decimal_eq_iff]
  simp

theorem wrapped_of_lt (hn : n < 2 ^ 31) : wrapped n = n := wrapped_eq_iff.mpr hn

/-! ## The ids -/

variable (harg : isUnsignedNumber arg = true)
include harg

theorem card_iff : Stores (optionalCardId dev arg h) h cardIdArg arg ↔
    number 10 arg < 2 ^ 31 ∨ h.cmdName ≠ "config" ∧ dev.cardExists (wrapped (number 10 arg)) = false := by
  rw [Stores, optionalCardId, if_neg (by rw [harg]; decide), atoi_of_isUnsignedNumber harg]
  by_cases hrefused : h.cmdName ≠ "config" ∧ dev.cardExists (wrapped (number 10 arg)) = false
  · simp only [if_pos hrefused, reduceCtorEq, false_implies, true_iff]
    exact Or.inr hrefused
  · simp only [if_neg hrefused, true_implies, addArg_eq_iff, or_iff_left hrefused]

theorem smb_iff : Stores (requiresSmbId arg h) h smbIdArg arg ↔
    number 10 arg < 2 ^ 31 ∨ 7 < wrapped (number 10 arg) ∨ wrapped (number 10 arg) < 0 := by
  rw [Stores, requiresSmbId, if_neg (by rw [harg]; decide), atoi_of_isUnsignedNumber harg]
  by_cases hrefused : 7 < wrapped (number 10 arg) ∨ wrapped (number 10 arg) < 0
  · simp only [if_pos hrefused, reduceCtorEq, false_implies, true_iff]
    exact Or.inr hrefused
  · simp only [if_neg hrefused, true_implies, addArg_eq_iff, or_iff_left hrefused]

/-- The range of the CPUs is checked on one side only; an id that fits is not negative. -/
theorem cpu_iff : (Stores (optionalCpuId dev arg h) h cpuIdArg arg ∧ ((optionalCpuId dev arg h).1 = .parsed →
      ∃ card, h.find cardIdArg = some card ∧ (number 10 arg : ℤ) ≤ getLastCpu dev (getNumber card))) ↔
    number 10 arg < 2 ^ 31 ∨
      ∀ card, h.find cardIdArg = some card → getLastCpu dev (getNumber card) < wrapped (number 10 arg) := by
  rw [Stores, optionalCpuId, if_neg (by rw [harg]; decide), atoi_of_isUnsignedNumber harg]
  cases hcard : h.find cardIdArg with
  | none => simp
  | some card =>
    by_cases hrefused : getLastCpu dev (getNumber card) < wrapped (number 10 arg)
    · simp [hrefused]
    · simp only [if_neg hrefused, true_implies, addArg_eq_iff, Option.some.injEq, exists_eq_left', forall_eq',
        or_iff_left hrefused]
      constructor
      · exact And.left
      · intro hlt
        refine ⟨hlt, ?_⟩
        rw [wrapped_of_lt hlt] at hrefused
        exact Int.not_lt.mp hrefused

omit harg

/-- Ids are taken at face value if and only if those that do not fit into an `int` are refused for what is left of
them. -/
theorem ids_right_iff (dev : Devices) (arg : List Char) (h : ArgsHolder) : Right dev arg h ↔ FaceValue dev arg h := by
  by_cases harg : isUnsignedNumber arg = true
  · rw [FaceValue, harg]
    constructor
    · rintro ⟨hcard, hcpu, hle, hsmb⟩ -
      by_cases hlt : number 10 arg < 2 ^ 31
      · exact Or.inl hlt
      · exact Or.inr ⟨((card_iff harg).mp hcard).resolve_left hlt, ((cpu_iff harg).mp ⟨hcpu, hle⟩).resolve_left hlt,
          ((smb_iff harg).mp hsmb).resolve_left hlt⟩
    · intro hface
      have hcard : Stores (optionalCardId dev arg h) h cardIdArg arg :=
        (card_iff harg).mpr ((hface rfl).imp_right Refused.card)
      have hcpu : Stores (optionalCpuId dev arg h) h cpuIdArg arg ∧ (_ → _) :=
        (cpu_iff harg).mpr ((hface rfl).imp_right Refused.cpu)
      have hsmb : Stores (requiresSmbId arg h) h smbIdArg arg :=
        (smb_iff harg).mpr ((hface rfl).imp_right Refused.smb)
      exact ⟨hcard, hcpu.1, hcpu.2, hsmb⟩
  · -- other texts are not parsed
    have hfalse : isUnsignedNumber arg = false := Bool.eq_false_iff.mpr harg
    refine ⟨fun _ h' ↦ absurd h' harg, fun _ ↦ ⟨?_, ?_, ?_, ?_⟩⟩
    · intro hparsed
      rw [optionalCardId, if_pos hfalse] at hparsed
      cases hparsed
    · intro hparsed
      rw [optionalCpuId, if_pos hfalse] at hparsed
      cases hparsed
    · intro hparsed
      rw [optionalCpuId, if_pos hfalse] at hparsed
      cases hparsed
    · intro hparsed
      rw [requiresSmbId, if_pos hfalse] at hparsed
      cases hparsed

/-- `2 ^ 32` is the first card. -/
theorem first_card_for_large_id :
    ¬ Right ⟨fun card ↦ card = 0, fun _ ↦ some 1⟩ "4294967296".toList ⟨"reset", []⟩ := by
  intro h
  have hstored := congrArg ArgsHolder.holder (h.card (by decide))
  revert hstored
  decide

end Vcass.Vcactl.Ids
