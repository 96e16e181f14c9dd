import Mathlib.Data.Nat.Notation
import Mathlib.Logic.Function.Basic
import Vcass.Plx.Eeprom.Image

/-!
# Writing the EEPROM

The EEPROM is a memory of words of 32 bits. A command names a word by the 13 bits of `eep_blk_addr`, with
`eep_blk_addr_upper_bit` above them, and moves it between the memory and a buffer register. The driver writes a
valid image word by word and reads each word back at once. The upper bit is never set, so a word of the second
half of the address space is written to the first half, and read back from there.

The offset of the loop has 16 bits. An image of 65540 bytes, the longest there is, is longer than any offset, and
the loop starts again from the beginning.

## Outcomes

Whether the EEPROM gets ready and a command completes is given in advance, by the number of the access. A loop
has a number of passes that it may take; it gives the number that it took, if it has stopped.
-/

namespace Vcass.Plx.Eeprom

open Function (update)

/-! ## The device -/

inductive EepCmd
  | write
  | read
  | readStatus
  | writeEnable
  deriving DecidableEq, Repr

/-- The fields of `plx_eep_status_register` that the driver sets. -/
structure PlxEepStatusRegister where
  eepBlkAddr : BitVec 13
  eepCmd : EepCmd
  eepBlkAddrUpperBit : BitVec 1

/-- The word that a command names. -/
def PlxEepStatusRegister.word (status : PlxEepStatusRegister) : BitVec 14 :=
  status.eepBlkAddrUpperBit ++ status.eepBlkAddr

structure Eep where
  mem : BitVec 14 → BitVec 32
  buffer : BitVec 32
  writeEnabled : Bool
  /-- How many accesses there were. -/
  accesses : ℕ

structure EepEnv where
  accessReady : ℕ → PlxEepRetval
  cmdComplete : ℕ → PlxEepRetval

/-- What the driver does with the device: it succeeds or fails, and leaves the device changed in either case. -/
def EepM (α : Type) : Type := Eep → Except PlxEepRetval α × Eep

instance : Monad EepM where
  pure a s := (.ok a, s)
  bind x f s :=
    match x s with
    | (.ok a, s') => f a s'
    | (.error e, s') => (.error e, s')

def EepM.fail {α : Type} (e : PlxEepRetval) : EepM α := fun s ↦ (.error e, s)

def EepM.modify (f : Eep → Eep) : EepM Unit := fun s ↦ (.ok (), f s)

def EepM.buffer : EepM (BitVec 32) := fun s ↦ (.ok s.buffer, s)

def Eep.execute (s : Eep) (status : PlxEepStatusRegister) : Eep :=
  match status.eepCmd with
  | .read => { s with buffer := s.mem status.word }
  | .write => if s.writeEnabled then { s with mem := update s.mem status.word s.buffer, writeEnabled := false } else s
  | .writeEnable => { s with writeEnabled := true }
  | .readStatus => s

/-- The next access goes as the environment says. -/
def access (result : ℕ → PlxEepRetval) : EepM Unit := fun s ↦
  (if result s.accesses = .statusOk then .ok () else .error (result s.accesses),
    { s with accesses := s.accesses + 1 })

/-! ## The code -/

section Code

variable (env : EepEnv)

def eepromSendCmd (status : PlxEepStatusRegister) : EepM Unit := do
  EepM.modify fun s ↦ s.execute status
  access env.cmdComplete

def eepromWaitForAccessReady : EepM Unit := access env.accessReady

def eepromRead32 (offset : BitVec 32) : EepM (BitVec 32) := do
  eepromWaitForAccessReady env
  let offset := offset / 4
  eepromSendCmd env ⟨offset.setWidth 13, .read, 0⟩
  EepM.buffer

def eepromRead16 (offset : BitVec 32) : EepM (BitVec 16) := do
  let value32 ← eepromRead32 env (offset &&& ~~~3)
  return if offset &&& 3 ≠ 0 then (value32 >>> 16).setWidth 16 else value32.setWidth 16

def eepromWrite32 (offset : BitVec 16) (value32 : BitVec 32) : EepM Unit := do
  eepromWaitForAccessReady env
  let offset := offset / 4
  eepromSendCmd env ⟨0, .writeEnable, 0⟩
  EepM.modify fun s ↦ { s with buffer := value32 }
  eepromSendCmd env ⟨offset.setWidth 13, .write, 0⟩

def eepromWrite16 (offset : BitVec 16) (value16 : BitVec 16) : EepM Unit := do
  let value32 ← eepromRead32 env ((offset &&& ~~~3).setWidth 32)
  let value32 := if offset &&& 3 ≠ 0 then value16.setWidth 32 <<< 16 ||| value32 &&& 0xffff
    else value16.setWidth 32 ||| value32 &&& 0xffff0000
  eepromWrite32 env (offset &&& ~~~3) value32

/-- The trailing half word. -/
def updateHalf (data : List UInt8) (offset : BitVec 16) : EepM Unit := do
  let value := le16 data offset.toNat
  eepromWrite16 env offset value
  let verify ← eepromRead16 env (offset.setWidth 32)
  if value ≠ verify then EepM.fail .internalError

def updateWord (data : List UInt8) (offset : BitVec 16) : EepM Unit := do
  let value := le32 data offset.toNat
  eepromWrite32 env offset value
  let verify ← eepromRead32 env (offset.setWidth 32)
  if value ≠ verify then EepM.fail .internalError

/-- The loop, from an offset on: how many passes it takes. -/
def updateLoop (data : List UInt8) : (passes : ℕ) → BitVec 16 → EepM (Option ℕ)
  | 0, _ => pure none
  | passes + 1, offset =>
    if offset.toNat < data.length then
      if data.length - offset.toNat = 2 then do
        updateHalf env data offset
        pure (some 1)
      else do
        updateWord env data offset
        let taken ← updateLoop data passes (offset + 4)
        pure (taken.map (· + 1))
    else pure (some 0)

/-- `plx_update_eeprom`. -/
def plxUpdateEeprom (data : List UInt8) (passes : ℕ) : EepM (Option ℕ) :=
  if eepromValidate data ≠ .statusOk then EepM.fail (eepromValidate data)
  else updateLoop env data passes 0

end Code

/-! ## What the functions do -/

/-- A computation that succeeds: the result and the device after it. -/
def Yields {α : Type} (x : EepM α) (s : Eep) (a : α) (s' : Eep) : Prop := x s = (.ok a, s')

variable {env : EepEnv} {α β : Type} {x : EepM α} {f : α → EepM β} {a a' : α} {b : β} {s s' t : Eep} {data : List UInt8}

theorem yields_bind : Yields (x >>= f) s b t ↔ ∃ a s', Yields x s a s' ∧ Yields (f a) s' b t := by
  change (match x s with
    | (.ok a, s') => f a s'
    | (.error e, s') => (.error e, s')) = (.ok b, t) ↔ _
  cases hx : x s with
  | mk r s' =>
    cases r with
    | ok a =>
      constructor
      · intro h
        exact ⟨a, s', hx, h⟩
      · rintro ⟨a', s'', hx', hf⟩
        obtain ⟨ha, rfl⟩ := Prod.mk.inj (hx.symm.trans hx')
        obtain rfl := Except.ok.inj ha
        exact hf
    | error e =>
      constructor
      · intro h
        cases h
      · rintro ⟨a', s'', hx', -⟩
        cases hx.symm.trans hx'

@[simp] theorem yields_pure : Yields (pure a' : EepM α) s a t ↔ a' = a ∧ s = t := by
  constructor
  · intro h
    obtain ⟨ha, hs⟩ := Prod.mk.inj h
    exact ⟨Except.ok.inj ha, hs⟩
  · rintro ⟨rfl, rfl⟩
    rfl

@[simp] theorem yields_modify {g : Eep → Eep} {u : Unit} : Yields (EepM.modify g) s u t ↔ g s = t := by
  constructor
  · intro h
    exact (Prod.mk.inj h).2
  · rintro rfl
    rfl

@[simp] theorem yields_buffer {v : BitVec 32} : Yields EepM.buffer s v t ↔ s.buffer = v ∧ s = t := by
  constructor
  · intro h
    obtain ⟨hv, hs⟩ := Prod.mk.inj h
    exact ⟨Except.ok.inj hv, hs⟩
  · rintro ⟨rfl, rfl⟩
    rfl

@[simp] theorem not_yields_fail {e : PlxEepRetval} : ¬ Yields (EepM.fail e) s a t := nofun

theorem yields_access {result : ℕ → PlxEepRetval} {u : Unit} : Yields (access result) s u t ↔
    result s.accesses = .statusOk ∧ t = { s with accesses := s.accesses + 1 } := by
  unfold Yields access
  split_ifs with h
  · constructor
    · intro heq
      exact ⟨h, (Prod.mk.inj heq).2.symm⟩
    · rintro ⟨-, rfl⟩
      rfl
  · constructor
    · intro heq
      cases heq
    · rintro ⟨h', -⟩
      exact absurd h' h

/-- The word that is addressed by a byte offset. -/
def wordOf (offset : BitVec 32) : BitVec 14 := (0 : BitVec 1) ++ (offset / 4).setWidth 13

theorem toNat_wordOf (offset : BitVec 32) : (wordOf offset).toNat = offset.toNat / 4 % 2 ^ 13 := by
  rw [wordOf, BitVec.toNat_append, BitVec.toNat_setWidth, BitVec.toNat_udiv]
  simp

theorem toNat_wordOf_offset {offset : BitVec 16} {k : ℕ} (hoffset : offset.toNat = 4 * k) :
    (wordOf (offset.setWidth 32)).toNat = k % 2 ^ 13 := by
  have hlt := offset.isLt
  have hwide : offset.toNat % 2 ^ 32 = 4 * k := by omega
  rw [toNat_wordOf, BitVec.toNat_setWidth, hwide, Nat.mul_div_cancel_left k (by decide)]

theorem word_of_offset (offset : BitVec 16) :
    (0 : BitVec 1) ++ (offset / 4).setWidth 13 = wordOf (offset.setWidth 32) := by
  have hlt := offset.isLt
  apply BitVec.eq_of_toNat_eq
  rw [toNat_wordOf, BitVec.toNat_append, BitVec.toNat_setWidth, BitVec.toNat_udiv, BitVec.toNat_setWidth]
  simp
  omega

theorem eepromRead32_yields {offset v : BitVec 32} (h : Yields (eepromRead32 env offset) s v t) :
    v = s.mem (wordOf offset) ∧ t.mem = s.mem := by
  simp only [eepromRead32, eepromWaitForAccessReady, eepromSendCmd, yields_bind, yields_access, yields_modify,
    yields_buffer] at h
  obtain ⟨_, s₁, ⟨-, rfl⟩, _, s₂, ⟨_, s₃, rfl, -, rfl⟩, rfl, rfl⟩ := h
  exact ⟨rfl, rfl⟩

theorem eepromWrite32_yields {offset : BitVec 16} {v : BitVec 32} {u : Unit}
    (h : Yields (eepromWrite32 env offset v) s u t) : t.mem = update s.mem (wordOf (offset.setWidth 32)) v := by
  simp only [eepromWrite32, eepromWaitForAccessReady, eepromSendCmd, yields_bind, yields_access, yields_modify] at h
  obtain ⟨_, s₁, ⟨-, rfl⟩, _, s₂, ⟨_, s₃, rfl, -, rfl⟩, _, s₄, rfl, _, s₅, rfl, -, rfl⟩ := h
  rw [← word_of_offset]
  rfl

theorem updateWord_yields {offset : BitVec 16} {u : Unit} (h : Yields (updateWord env data offset) s u t) :
    t.mem = update s.mem (wordOf (offset.setWidth 32)) (le32 data offset.toNat) := by
  simp only [updateWord, yields_bind] at h
  obtain ⟨_, s₁, hwrite, v, s₂, hread, hlast⟩ := h
  have hmem : t = s₂ := by
    split at hlast
    · exact absurd hlast not_yields_fail
    · exact (yields_pure.mp hlast).2.symm
  rw [hmem, (eepromRead32_yields hread).2, eepromWrite32_yields hwrite]

theorem and_not_eq_self {w : ℕ} {x m : BitVec w} (h : x &&& m = 0) : x &&& ~~~m = x := by
  have hsplit : (x &&& ~~~m) ||| (x &&& m) = x := by
    apply BitVec.eq_of_getLsbD_eq
    intro i hi
    simp only [BitVec.getLsbD_or, BitVec.getLsbD_and, BitVec.getLsbD_not, hi, decide_true, Bool.true_and]
    cases x.getLsbD i <;> cases m.getLsbD i <;> rfl
  rw [h] at hsplit
  exact BitVec.or_zero.symm.trans hsplit

/-- The word with its lower half replaced. -/
def lowReplaced (v : BitVec 32) (low : BitVec 16) : BitVec 32 := low.setWidth 32 ||| v &&& 0xffff0000

theorem eepromWrite16_yields {offset value : BitVec 16} {u : Unit} (hoffset : offset &&& 3 = 0)
    (h : Yields (eepromWrite16 env offset value) s u t) :
    t.mem = update s.mem (wordOf (offset.setWidth 32)) (lowReplaced (s.mem (wordOf (offset.setWidth 32))) value) := by
  have haligned := and_not_eq_self hoffset
  simp only [eepromWrite16, yields_bind, haligned, hoffset, ne_eq, not_true_eq_false, if_false] at h
  obtain ⟨v, s₁, hread, hwrite⟩ := h
  obtain ⟨rfl, hmem⟩ := eepromRead32_yields hread
  rw [eepromWrite32_yields hwrite, hmem, lowReplaced]

theorem eepromRead16_mem {offset : BitVec 32} {v : BitVec 16} (h : Yields (eepromRead16 env offset) s v t) :
    t.mem = s.mem := by
  simp only [eepromRead16, yields_bind] at h
  obtain ⟨_, s₁, hread, hlast⟩ := h
  rw [← (yields_pure.mp hlast).2, (eepromRead32_yields hread).2]

theorem updateHalf_yields {offset : BitVec 16} {u : Unit} (hoffset : offset &&& 3 = 0)
    (h : Yields (updateHalf env data offset) s u t) :
    t.mem = update s.mem (wordOf (offset.setWidth 32))
      (lowReplaced (s.mem (wordOf (offset.setWidth 32))) (le16 data offset.toNat)) := by
  simp only [updateHalf, yields_bind] at h
  obtain ⟨_, s₁, hwrite, v, s₂, hread, hlast⟩ := h
  have hmem : t = s₂ := by
    split at hlast
    · exact absurd hlast not_yields_fail
    · exact (yields_pure.mp hlast).2.symm
  rw [hmem, eepromRead16_mem hread, eepromWrite16_yields hoffset hwrite]

/-! ## The content, in half words -/

/-- A half word of the memory. -/
def unitAt (mem : BitVec 14 → BitVec 32) (u : ℕ) : BitVec 16 :=
  (mem (BitVec.ofNat 14 (u / 2))).extractLsb' (16 * (u % 2)) 16

/-- A half word of the image. -/
def unitOf (data : List UInt8) (u : ℕ) : BitVec 16 := le16 data (2 * u)

/-- The half words of the image are written in turn, as if there were only half the memory. -/
def laid (data : List UInt8) (prior : ℕ → BitVec 16) : ℕ → ℕ → BitVec 16
  | 0 => prior
  | n + 1 => update (laid data prior n) (n % 2 ^ 14) (unitOf data n)

variable {prior : ℕ → BitVec 16} {mem : BitVec 14 → BitVec 32} {n u : ℕ}

/-- What is in the memory in the end: the second half of the image lies over the first. -/
theorem laid_eq (hn : n ≤ 2 ^ 15) (hu : u < 2 ^ 15) : laid data prior n u =
    if 2 ^ 14 ≤ u then prior u else if u + 2 ^ 14 < n then unitOf data (u + 2 ^ 14)
      else if u < n then unitOf data u else prior u := by
  induction n with
  | zero => simp [laid]
  | succ n ih =>
    rw [laid]
    by_cases heq : u = n % 2 ^ 14
    · rw [heq, Function.update_self, ← heq]
      by_cases hhigh : n < 2 ^ 14
      · have hun : u = n := by omega
        rw [if_neg (by omega), if_neg (by omega), if_pos (by omega), hun]
      · have hun : u + 2 ^ 14 = n := by omega
        rw [if_neg (by omega), if_pos (by omega), hun]
    · rw [Function.update_of_ne heq, ih (by omega)]
      by_cases hhigh : 2 ^ 14 ≤ u
      · rw [if_pos hhigh, if_pos hhigh]
      · rw [if_neg hhigh, if_neg hhigh]
        have h₁ : u + 2 ^ 14 < n ↔ u + 2 ^ 14 < n + 1 := by omega
        have h₂ : u < n ↔ u < n + 1 := by omega
        simp only [h₁, h₂]

theorem unitAt_update {w : BitVec 14} {v : BitVec 32} (hu : u < 2 ^ 15) :
    unitAt (update mem w v) u = if u / 2 = w.toNat then v.extractLsb' (16 * (u % 2)) 16 else unitAt mem u := by
  have hword : BitVec.ofNat 14 (u / 2) = w ↔ u / 2 = w.toNat := by
    rw [← BitVec.toNat_inj, BitVec.toNat_ofNat, Nat.mod_eq_of_lt (by omega)]
  rw [unitAt]
  split_ifs with h
  · rw [hword.mpr h, Function.update_self]
  · rw [Function.update_of_ne (fun heq ↦ h (hword.mp heq)), unitAt]

theorem extract_le32 (i r : ℕ) (hr : r < 2) : (le32 data i).extractLsb' (16 * r) 16 = le16 data (i + 2 * r) := by
  obtain rfl | rfl : r = 0 ∨ r = 1 := by omega
  · exact BitVec.extractLsb'_append_eq_right
  · exact BitVec.extractLsb'_append_eq_left

/-- The mask covers the upper half. -/
theorem mask_bits : ∀ i < 16, (0xffff0000 : BitVec 32).getLsbD i = false ∧
    (0xffff0000 : BitVec 32).getLsbD (16 + i) = true := by decide

theorem extract_lowReplaced (v : BitVec 32) (low : BitVec 16) :
    (lowReplaced v low).extractLsb' 0 16 = low ∧ (lowReplaced v low).extractLsb' 16 16 = v.extractLsb' 16 16 := by
  rw [lowReplaced]
  constructor
  · apply BitVec.eq_of_getLsbD_eq
    intro i hi
    have hlt : i < 32 := by omega
    rw [BitVec.getLsbD_extractLsb', BitVec.getLsbD_or, BitVec.getLsbD_and, BitVec.getLsbD_setWidth, Nat.zero_add,
      (mask_bits i hi).1]
    simp [hi, hlt]
  · apply BitVec.eq_of_getLsbD_eq
    intro i hi
    have hzero : low.getLsbD (16 + i) = false := BitVec.getLsbD_of_ge low _ (Nat.le_add_right 16 i)
    rw [BitVec.getLsbD_extractLsb', BitVec.getLsbD_or, BitVec.getLsbD_and, BitVec.getLsbD_setWidth,
      (mask_bits i hi).2, hzero]
    simp [hi]

/-- The memory holds the first half words of the image, and what was there before them. -/
def Holds (mem : BitVec 14 → BitVec 32) (data : List UInt8) (prior : ℕ → BitVec 16) (n : ℕ) : Prop :=
  ∀ u < 2 ^ 15, unitAt mem u = laid data prior n u

theorem Holds.word {offset : BitVec 16} {k : ℕ} (h : Holds mem data prior (2 * k)) (hoffset : offset.toNat = 4 * k) :
    Holds (update mem (wordOf (offset.setWidth 32)) (le32 data offset.toNat)) data prior (2 * k + 2) := by
  intro u hu
  have hword := toNat_wordOf_offset hoffset
  rw [unitAt_update hu, hword, hoffset, extract_le32 _ _ (Nat.mod_lt u (by decide)), laid, laid, h u hu]
  by_cases hhigh : u = (2 * k + 1) % 2 ^ 14
  · have hodd : 4 * k + 2 * (u % 2) = 2 * (2 * k + 1) := by omega
    rw [← hhigh, Function.update_self, if_pos (by omega), hodd, unitOf]
  · rw [Function.update_of_ne hhigh]
    by_cases hlow : u = 2 * k % 2 ^ 14
    · have heven : 4 * k + 2 * (u % 2) = 2 * (2 * k) := by omega
      rw [← hlow, Function.update_self, if_pos (by omega), heven, unitOf]
    · rw [Function.update_of_ne hlow, if_neg (by omega)]

theorem Holds.half {offset : BitVec 16} {k : ℕ} (h : Holds mem data prior (2 * k)) (hoffset : offset.toNat = 4 * k) :
    Holds (update mem (wordOf (offset.setWidth 32))
      (lowReplaced (mem (wordOf (offset.setWidth 32))) (le16 data offset.toNat))) data prior (2 * k + 1) := by
  intro u hu
  have hword := toNat_wordOf_offset hoffset
  obtain ⟨hlow, hhigh⟩ := extract_lowReplaced (mem (wordOf (offset.setWidth 32))) (le16 data offset.toNat)
  rw [unitAt_update hu, hword, laid]
  by_cases heq : u = 2 * k % 2 ^ 14
  · have hzero : u % 2 = 0 := by omega
    have hbyte : 4 * k = 2 * (2 * k) := by omega
    rw [← heq, Function.update_self, if_pos (by omega), hzero, hlow, hoffset, hbyte, unitOf]
  · rw [Function.update_of_ne heq, ← h u hu]
    split_ifs with hsame
    · -- the upper half of the word
      have hone : u % 2 = 1 := by omega
      have hidx : BitVec.ofNat 14 (u / 2) = wordOf (offset.setWidth 32) := by
        apply BitVec.eq_of_toNat_eq
        rw [BitVec.toNat_ofNat, hword, Nat.mod_eq_of_lt (by omega), hsame]
      rw [hone, hhigh, unitAt, hidx, hone]
    · rfl

/-! ## The loop -/

section Loop

variable {passes k : ℕ} {offset : BitVec 16}

theorem toNat_and_three (offset : BitVec 16) : (offset &&& 3).toNat = offset.toNat % 4 :=
  Nat.and_two_pow_sub_one_eq_mod offset.toNat 2

theorem and_three_eq_zero (hoffset : offset.toNat = 4 * k) : offset &&& 3 = 0 := by
  apply BitVec.eq_of_toNat_eq
  rw [toNat_and_three, hoffset, Nat.mul_mod_right]
  rfl

theorem yields_plxUpdateEeprom {r : Option ℕ} : Yields (plxUpdateEeprom env data passes) s r t ↔
    eepromValidate data = .statusOk ∧ Yields (updateLoop env data passes 0) s r t := by
  rw [plxUpdateEeprom]
  split_ifs with h
  · constructor
    · intro hfail
      exact absurd hfail not_yields_fail
    · rintro ⟨hvalid, -⟩
      exact absurd hvalid h
  · exact ⟨fun hloop ↦ ⟨not_not.mp h, hloop⟩, fun hloop ↦ hloop.2⟩

/-- A loop that stops has ended, or its first pass was the one with the half word, or there are others after it. -/
theorem updateLoop_pass (h : Yields (updateLoop env data (passes + 1) offset) s (some n) t) :
    (data.length ≤ offset.toNat ∧ n = 0 ∧ s = t) ∨
    (offset.toNat + 2 = data.length ∧ n = 1 ∧ Yields (updateHalf env data offset) s () t) ∨
    (offset.toNat < data.length ∧ offset.toNat + 2 ≠ data.length ∧ ∃ m s', n = m + 1 ∧
      Yields (updateWord env data offset) s () s' ∧ Yields (updateLoop env data passes (offset + 4)) s' (some m) t) := by
  rw [updateLoop] at h
  split_ifs at h with hlt htwo
  · obtain ⟨_, s', hhalf, hlast⟩ := yields_bind.mp h
    obtain ⟨hn, rfl⟩ := yields_pure.mp hlast
    exact Or.inr (Or.inl ⟨by omega, (Option.some.inj hn).symm, hhalf⟩)
  · obtain ⟨_, s', hword, hrest⟩ := yields_bind.mp h
    obtain ⟨taken, s'', hloop, hlast⟩ := yields_bind.mp hrest
    obtain ⟨hn, rfl⟩ := yields_pure.mp hlast
    obtain ⟨m, rfl, hm⟩ := Option.map_eq_some_iff.mp hn
    exact Or.inr (Or.inr ⟨hlt, by omega, m, s', hm.symm, hword, hloop⟩)
  · obtain ⟨hn, hs⟩ := yields_pure.mp h
    exact Or.inl ⟨Nat.le_of_not_lt hlt, (Option.some.inj hn).symm, hs⟩

/-- What is in the memory when the loop has stopped, and after how many passes. -/
theorem updateLoop_yields (heven : data.length % 2 = 0) (hlen : data.length < 2 ^ 16)
    (hoffset : offset.toNat = 4 * k) (hle : 4 * k ≤ data.length) (hs : Holds s.mem data prior (2 * k))
    (h : Yields (updateLoop env data passes offset) s (some n) t) :
    Holds t.mem data prior (data.length / 2) ∧ n = (data.length - 4 * k + 3) / 4 := by
  induction passes generalizing offset k s n with
  | zero => cases (yields_pure.mp h).1
  | succ passes ih =>
    obtain ⟨hend, rfl, rfl⟩ | ⟨htwo, rfl, hhalf⟩ | ⟨hlt, htwo, m, s', rfl, hword, hloop⟩ := updateLoop_pass h
    · have hk : data.length / 2 = 2 * k := by omega
      rw [hk]
      exact ⟨hs, by omega⟩
    · have hk : data.length / 2 = 2 * k + 1 := by omega
      rw [hk, updateHalf_yields (and_three_eq_zero hoffset) hhalf]
      exact ⟨hs.half hoffset, by omega⟩
    · -- the image is even, so the whole word belongs to it, and the offset does not overflow
      have hnext : (offset + 4).toNat = 4 * (k + 1) := by
        rw [BitVec.toNat_add, hoffset]
        change (4 * k + 4) % 2 ^ 16 = _
        omega
      have hs' : Holds s'.mem data prior (2 * (k + 1)) := by
        rw [updateWord_yields hword]
        exact hs.word hoffset
      obtain ⟨hmem, hm⟩ := ih hnext (by omega) hs' hloop
      exact ⟨hmem, by omega⟩

/-- The loop never reaches the end of an image that is longer than every offset. -/
theorem updateLoop_never (hlen : 2 ^ 16 ≤ data.length) (hmod : data.length % 4 = 0) (hoffset : offset.toNat % 4 = 0) :
    ¬ Yields (updateLoop env data passes offset) s (some n) t := by
  induction passes generalizing offset s n with
  | zero =>
    intro h
    cases (yields_pure.mp h).1
  | succ passes ih =>
    intro h
    have hlt := offset.isLt
    obtain ⟨hend, -, -⟩ | ⟨htwo, -, -⟩ | ⟨-, -, m, s', -, -, hloop⟩ := updateLoop_pass h
    · omega
    · omega
    · have hnext : (offset + 4).toNat % 4 = 0 := by
        rw [BitVec.toNat_add]
        change (offset.toNat + 4) % 2 ^ 16 % 4 = 0
        omega
      exact ih hnext hloop

end Loop

/-! ## The content after an update -/

/-- What the update leaves: the second half of the image is written over the first. -/
theorem update_mem {passes : ℕ} (h : Yields (plxUpdateEeprom env data passes) s (some n) t) :
    data.length < 2 ^ 16 ∧ ∀ u < 2 ^ 15, unitAt t.mem u = if 2 ^ 14 ≤ u then unitAt s.mem u
      else if 2 * (u + 2 ^ 14) < data.length then unitOf data (u + 2 ^ 14)
        else if 2 * u < data.length then unitOf data u else unitAt s.mem u := by
  obtain ⟨hvalid, hloop⟩ := yields_plxUpdateEeprom.mp h
  obtain ⟨hmin, hmod, hmax, -⟩ := length_of_validate hvalid
  have hlen : data.length < 2 ^ 16 := by
    by_contra hlong
    exact updateLoop_never (by omega) (by omega) rfl hloop
  have hstart : Holds s.mem data (unitAt s.mem) (2 * 0) := fun u _ ↦ rfl
  obtain ⟨hmem, -⟩ := updateLoop_yields (by omega) hlen rfl (Nat.zero_le _) hstart hloop
  refine ⟨hlen, fun u hu ↦ ?_⟩
  have hiff : ∀ v, v < data.length / 2 ↔ 2 * v < data.length := by
    intro v
    omega
  rw [hmem u hu, laid_eq (by omega) hu]
  simp only [hiff]

/-! ## Accesses that succeed -/

/-- Every access succeeds. -/
def EepEnv.Reliable (env : EepEnv) : Prop :=
  ∀ i, env.accessReady i = .statusOk ∧ env.cmdComplete i = .statusOk

theorem eepromRead32_succeeds (henv : env.Reliable) (s : Eep) (offset : BitVec 32) :
    ∃ v t, Yields (eepromRead32 env offset) s v t := by
  simp only [eepromRead32, eepromWaitForAccessReady, eepromSendCmd, yields_bind, yields_access, yields_modify,
    yields_buffer]
  exact ⟨_, _, (), _, ⟨(henv _).1, rfl⟩, (), _, ⟨(), _, rfl, (henv _).2, rfl⟩, rfl, rfl⟩

theorem eepromWrite32_succeeds (henv : env.Reliable) (s : Eep) (offset : BitVec 16) (v : BitVec 32) :
    ∃ t, Yields (eepromWrite32 env offset v) s () t := by
  simp only [eepromWrite32, eepromWaitForAccessReady, eepromSendCmd, yields_bind, yields_access, yields_modify]
  exact ⟨_, (), _, ⟨(henv _).1, rfl⟩, (), _, ⟨(), _, rfl, (henv _).2, rfl⟩, (), _, rfl, (), _, rfl, (henv _).2, rfl⟩

theorem updateWord_succeeds (henv : env.Reliable) (s : Eep) (offset : BitVec 16) :
    ∃ t, Yields (updateWord env data offset) s () t := by
  obtain ⟨s', hwrite⟩ := eepromWrite32_succeeds henv s offset (le32 data offset.toNat)
  obtain ⟨v, t, hread⟩ := eepromRead32_succeeds henv s' (offset.setWidth 32)
  have hv : v = le32 data offset.toNat := by
    rw [(eepromRead32_yields hread).1, eepromWrite32_yields hwrite, Function.update_self]
  refine ⟨t, ?_⟩
  simp only [updateWord, yields_bind]
  refine ⟨(), s', hwrite, v, t, hread, ?_⟩
  rw [if_neg (not_not.mpr hv.symm)]
  exact yields_pure.mpr ⟨rfl, rfl⟩

theorem eepromWrite16_succeeds (henv : env.Reliable) (s : Eep) (offset value : BitVec 16) :
    ∃ t, Yields (eepromWrite16 env offset value) s () t := by
  obtain ⟨v, s', hread⟩ := eepromRead32_succeeds henv s ((offset &&& ~~~3).setWidth 32)
  simp only [eepromWrite16, yields_bind]
  obtain ⟨t, hwrite⟩ := eepromWrite32_succeeds henv s' (offset &&& ~~~3)
    (if offset &&& 3 ≠ 0 then value.setWidth 32 <<< 16 ||| v &&& 0xffff else value.setWidth 32 ||| v &&& 0xffff0000)
  exact ⟨t, v, s', hread, hwrite⟩

theorem eepromRead16_succeeds (henv : env.Reliable) (s : Eep) {offset : BitVec 32} (hoffset : offset &&& 3 = 0) :
    ∃ t, Yields (eepromRead16 env offset) s ((s.mem (wordOf offset)).setWidth 16) t := by
  obtain ⟨v, t, hread⟩ := eepromRead32_succeeds henv s offset
  refine ⟨t, ?_⟩
  simp only [eepromRead16, yields_bind, and_not_eq_self hoffset, hoffset, ne_eq, not_true_eq_false, if_false]
  exact ⟨v, t, hread, yields_pure.mpr ⟨by rw [(eepromRead32_yields hread).1], rfl⟩⟩

theorem updateHalf_succeeds (henv : env.Reliable) (s : Eep) {offset : BitVec 16} (hoffset : offset &&& 3 = 0) :
    ∃ t, Yields (updateHalf env data offset) s () t := by
  have hwide : offset.setWidth 32 &&& 3 = 0 := by
    have hthree : (3 : BitVec 32) = (3 : BitVec 16).setWidth 32 := by decide
    rw [hthree, ← BitVec.setWidth_and, hoffset]
    rfl
  obtain ⟨s', hwrite⟩ := eepromWrite16_succeeds henv s offset (le16 data offset.toNat)
  obtain ⟨t, hread⟩ := eepromRead16_succeeds henv s' hwide
  have hlow : (s'.mem (wordOf (offset.setWidth 32))).setWidth 16 = le16 data offset.toNat := by
    rw [eepromWrite16_yields hoffset hwrite, Function.update_self, BitVec.setWidth_eq_extractLsb' (by decide)]
    exact (extract_lowReplaced _ _).1
  rw [hlow] at hread
  refine ⟨t, ?_⟩
  simp only [updateHalf, yields_bind]
  refine ⟨(), s', hwrite, _, t, hread, ?_⟩
  rw [if_neg (fun h ↦ h rfl)]
  exact yields_pure.mpr ⟨rfl, rfl⟩

theorem updateLoop_stops (henv : env.Reliable) (heven : data.length % 2 = 0) (hlen : data.length < 2 ^ 16)
    {passes k : ℕ} {offset : BitVec 16} (hoffset : offset.toNat = 4 * k) (hle : 4 * k ≤ data.length)
    (hpasses : data.length < 4 * k + 4 * passes) (s : Eep) :
    ∃ n t, Yields (updateLoop env data passes offset) s (some n) t := by
  induction passes generalizing offset k s with
  | zero => omega
  | succ passes ih =>
    rw [updateLoop]
    split_ifs with hlt htwo
    · have hsucceeds : ∃ t, Yields (updateHalf env data offset) s () t :=
        updateHalf_succeeds henv s (and_three_eq_zero hoffset)
      obtain ⟨t, hhalf⟩ := hsucceeds
      exact ⟨1, t, yields_bind.mpr ⟨(), t, hhalf, yields_pure.mpr ⟨rfl, rfl⟩⟩⟩
    · have hsucceeds : ∃ t, Yields (updateWord env data offset) s () t := updateWord_succeeds henv s offset
      obtain ⟨s', hword⟩ := hsucceeds
      have hnext : (offset + 4).toNat = 4 * (k + 1) := by
        rw [BitVec.toNat_add, hoffset]
        change (4 * k + 4) % 2 ^ 16 = _
        omega
      obtain ⟨n, t, hloop⟩ := ih hnext (by omega) (by omega) s'
      exact ⟨n + 1, t, yields_bind.mpr ⟨(), s', hword, yields_bind.mpr ⟨some n, t, hloop, yields_pure.mpr ⟨rfl, rfl⟩⟩⟩⟩
    · exact ⟨0, s, yields_pure.mpr ⟨rfl, rfl⟩⟩

/-- A valid image that is shorter than the largest offset can be written. -/
theorem exists_update (henv : env.Reliable) (hvalid : eepromValidate data = .statusOk) (hlen : data.length < 2 ^ 16)
    (s : Eep) : ∃ n t, Yields (plxUpdateEeprom env data (data.length + 1)) s (some n) t := by
  obtain ⟨hmin, hmod, -, -⟩ := length_of_validate hvalid
  have hfirst : (0 : BitVec 16).toNat = 4 * 0 := rfl
  have hstops : ∃ n t, Yields (updateLoop env data (data.length + 1) 0) s (some n) t :=
    updateLoop_stops henv (by omega) hlen hfirst (by omega) (by omega) s
  obtain ⟨n, t, hloop⟩ := hstops
  exact ⟨n, t, yields_plxUpdateEeprom.mpr ⟨hvalid, hloop⟩⟩

/-! ## A device and images for it -/

def workingEnv : EepEnv where
  accessReady _ := .statusOk
  cmdComplete _ := .statusOk

theorem workingEnv_reliable : workingEnv.Reliable := fun _ ↦ ⟨rfl, rfl⟩

def erasedEep : Eep where
  mem _ := BitVec.allOnes 32
  buffer := 0
  writeEnabled := false
  accesses := 0

/-- An image with entries of zeros. -/
def zeroImage (entries : ℕ) : List UInt8 := imageOf (List.replicate (6 * entries) 0)

theorem zeroImage_valid {entries : ℕ} (hpos : 0 < entries) (hlen : 6 * entries < 2 ^ 16) :
    eepromValidate (zeroImage entries) = .statusOk := by
  have hne : List.replicate (6 * entries) (0 : UInt8) ≠ [] := by
    rw [ne_eq, List.replicate_eq_nil_iff]
    omega
  exact imageOf_valid hne (by rw [List.length_replicate, Nat.mul_mod_right]) (by rwa [List.length_replicate])

theorem length_zeroImage (entries : ℕ) : (zeroImage entries).length = 6 * entries + 8 := by
  rw [zeroImage, length_imageOf, List.length_replicate]

theorem byteAt_zeroImage {entries i : ℕ} (hlow : 4 ≤ i) (hhigh : i < 4 + 6 * entries) :
    byteAt (zeroImage entries) i = 0 := by
  rw [byteAt, zeroImage, imageOf, List.getD_eq_getElem?_getD, List.getElem?_append_left,
    List.getElem?_append_right (by simpa [headerOf] using hlow), List.getElem?_replicate_of_lt]
  · rfl
  · simp [headerOf]
    omega
  · simp [headerOf]
    omega

/-! ## Results -/

/-- **Where the update keeps the image.** When the update has succeeded, the memory holds the image, and elsewhere what
was there before, exactly if every half word of the image beyond the first half of the memory was there already,
and is the same as the one that it is written over. -/
theorem update_content_iff {passes : ℕ} (h : Yields (plxUpdateEeprom env data passes) s (some n) t) :
    (∀ u < 2 ^ 15, unitAt t.mem u = if 2 * u < data.length then unitOf data u else unitAt s.mem u) ↔
      ∀ u, 2 ^ 14 ≤ u → 2 * u < data.length →
        unitAt s.mem u = unitOf data u ∧ unitOf data (u - 2 ^ 14) = unitOf data u := by
  obtain ⟨hlen, hfinal⟩ := update_mem h
  constructor
  · intro hcontent u hhigh hu
    have hupper := hcontent u (by omega)
    have hlower := hcontent (u - 2 ^ 14) (by omega)
    rw [hfinal u (by omega), if_pos hhigh, if_pos hu] at hupper
    rw [hfinal _ (by omega), if_neg (by omega), Nat.sub_add_cancel hhigh, if_pos hu, if_pos (by omega)] at hlower
    exact ⟨hupper, hlower.symm⟩
  · intro hsame u hu
    rw [hfinal u hu]
    by_cases hhigh : 2 ^ 14 ≤ u
    · rw [if_pos hhigh]
      split_ifs with hin
      · exact (hsame u hhigh hin).1
      · rfl
    · rw [if_neg hhigh]
      by_cases hover : 2 * (u + 2 ^ 14) < data.length
      · have h := (hsame (u + 2 ^ 14) (Nat.le_add_left _ _) hover).2
        rw [Nat.add_sub_cancel] at h
        rw [if_pos hover, if_pos (by omega), h]
      · rw [if_neg hover]

theorem smallImage_written : ∃ n t, Yields (plxUpdateEeprom workingEnv smallImage 15) erasedEep (some n) t ∧
    ∀ u < 2 ^ 15, unitAt t.mem u = if 2 * u < smallImage.length then unitOf smallImage u
      else unitAt erasedEep.mem u := by
  have hvalid : eepromValidate smallImage = .statusOk := by decide +kernel
  obtain ⟨n, t, h⟩ := exists_update workingEnv_reliable hvalid (by decide) erasedEep
  refine ⟨n, t, h, (update_content_iff h).mpr fun u hhigh hu ↦ ?_⟩
  have hlen : smallImage.length = 14 := rfl
  omega

/-- The image of 32774 bytes is valid, and the update succeeds, but the first half word of the memory is not the header
of the image. -/
theorem zeroImage_misplaced : eepromValidate (zeroImage 5461) = .statusOk ∧
    ∃ passes n t, Yields (plxUpdateEeprom workingEnv (zeroImage 5461) passes) erasedEep (some n) t ∧
      unitOf (zeroImage 5461) 0 = 0x5a ∧ unitAt t.mem 0 = 0 := by
  have hvalid : eepromValidate (zeroImage 5461) = .statusOk := zeroImage_valid (by decide) (by decide)
  have hlen := length_zeroImage 5461
  obtain ⟨n, t, h⟩ := exists_update workingEnv_reliable hvalid (by omega) erasedEep
  refine ⟨hvalid, _, n, t, h, rfl, ?_⟩
  rw [(update_mem h).2 0 (by decide), if_neg (by decide), if_pos (by omega), unitOf, le16,
    byteAt_zeroImage (by decide) (by decide), byteAt_zeroImage (by decide) (by decide)]
  rfl

/-- The update succeeds, and its loop has stopped after a number of passes. -/
def Stops (env : EepEnv) (data : List UInt8) (s : Eep) (n : ℕ) : Prop :=
  ∃ passes t, Yields (plxUpdateEeprom env data passes) s (some n) t

/-- **When the update stops.** With accesses that succeed the loop stops after one pass for each word, a half one
included, if the length of the image has 16 bits; of a longer image it never finds the end. -/
theorem update_stops_iff (hvalid : eepromValidate data = .statusOk) (henv : env.Reliable) (s : Eep) :
    (∀ n, Stops env data s n ↔ n = (data.length + 3) / 4) ↔ data.length < 2 ^ 16 := by
  obtain ⟨hmin, hmod, hmax, -⟩ := length_of_validate hvalid
  constructor
  · intro h
    by_contra hlong
    obtain ⟨passes, t, hstop⟩ := (h _).mpr rfl
    exact updateLoop_never (by omega) (by omega) rfl (yields_plxUpdateEeprom.mp hstop).2
  · intro hlen n
    have hcount : ∀ {passes m t}, Yields (updateLoop env data passes 0) s (some m) t → m = (data.length + 3) / 4 := by
      intro passes m t hloop
      have hstart : Holds s.mem data (unitAt s.mem) (2 * 0) := fun u _ ↦ rfl
      exact (updateLoop_yields (by omega) hlen rfl (Nat.zero_le _) hstart hloop).2
    constructor
    · rintro ⟨passes, t, hstop⟩
      exact hcount (yields_plxUpdateEeprom.mp hstop).2
    · rintro rfl
      obtain ⟨m, t, hstop⟩ := exists_update henv hvalid hlen s
      obtain rfl := hcount (yields_plxUpdateEeprom.mp hstop).2
      exact ⟨_, t, hstop⟩

theorem smallImage_stops : Stops workingEnv smallImage erasedEep 4 := by
  have hvalid : eepromValidate smallImage = .statusOk := by decide +kernel
  have hstops := (update_stops_iff hvalid workingEnv_reliable erasedEep).mpr (by decide)
  exact (hstops 4).mpr rfl

/-- The longest image is valid, and the loop never stops. -/
theorem zeroImage_never_stops : eepromValidate (zeroImage 10922) = .statusOk ∧
    ∀ n, ¬ Stops workingEnv (zeroImage 10922) erasedEep n := by
  have hlen := length_zeroImage 10922
  refine ⟨zeroImage_valid (by decide) (by decide), fun n ↦ ?_⟩
  rintro ⟨passes, t, h⟩
  exact updateLoop_never (by omega) (by omega) rfl (yields_plxUpdateEeprom.mp h).2

end Vcass.Plx.Eeprom
