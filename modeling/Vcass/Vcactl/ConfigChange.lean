import Vcass.Config.Parser
import Vcass.Vcactl.NetConfig

/-!
# Changes of the configuration

`config` checks some values before it saves them, with `strtol` in base 0, which takes decimal, octal and
hexadecimal numbers. Those who use the values read them with `atoi`, which takes decimal numbers only, or compare
the text.

For the parameters of the whole configuration, a check that fails is reported, and the value is saved nevertheless.
-/

namespace Vcass.Vcactl.ConfigChange

open Config Strtol

/-! ## The code -/

/-- The arguments of the command. -/
structure Change where
  callerId : ℕ
  cardId : Option ℕ
  cpuId : Option ℕ
  blkId : Option ℕ
  paramName : String
  paramVal : List Char

/-- A value that is saved in a field. -/
inductive Save
  | global (f : GlobalField) (value : List Char)
  | cpu (f : CpuField) (value : List Char)
  | blk (f : BlkDevField) (value : List Char)
  deriving DecidableEq, Repr

def globalField (name : String) : Option GlobalField := GlobalField.all.find? (·.dataField.name = name)

def cpuField (name : String) : Option CpuField := CpuField.all.find? (·.dataField.name = name)

def blkField (name : String) : Option BlkDevField := BlkDevField.all.find? (·.dataField.name = name)

def containsField (name : String) : Bool :=
  (globalField name).isSome || (cpuField name).isSome || (blkField name).isSome

/-- What has been read is the whole text, and the number is in the range. -/
def isCorrectParameter (str : List Char) (paramMin paramMax : ℤ) : Bool :=
  (strtol .zero str).2 = [] && paramMin ≤ (strtol .zero str).1 && (strtol .zero str).1 ≤ paramMax

def globalFieldsParameters : List String := ["auto-boot", "debug-enabled", "va-min-free-memory-enabled"]

/-- The checks of a parameter of a CPU or a block device, and the value if it is saved. -/
def changeField (isIpAddress : List Char → Bool) (c : Change) : List String × Option Save :=
  if c.paramName = CpuField.vaFreeMem.dataField.name ∧ isCorrectParameter c.paramVal 0 1 = false then
    (["Parameter should be in a range <0, 1>!\n"], none)
  else if c.paramName = CpuField.ip.dataField.name ∧ c.paramVal ≠ "dhcp".toList ∧
      (c.cardId = none ∨ c.cpuId = none) then
    (["card_id and cpu_id is required to change config field \"ip\"!\n"], none)
  else if c.paramName = CpuField.ip.dataField.name ∧ c.paramVal ≠ "dhcp".toList ∧
      isIpAddress c.paramVal = false then
    (["Ip address incorrect!\n"], none)
  else if c.paramName = CpuField.mask.dataField.name ∧ isCorrectParameter c.paramVal 1 32 = false then
    (["Mask value should be in a range <1,32>!\n"], none)
  else
    match cpuField c.paramName with
    | some f => ([], some (.cpu f c.paramVal))
    | none => ([], if c.blkId = none then none else (blkField c.paramName).map fun f ↦ .blk f c.paramVal)

/-- The messages, and the value if it is saved. -/
def configChange (isIpAddress : List Char → Bool) (c : Change) : List String × Option Save :=
  if c.callerId = 0 then
    if containsField c.paramName then
      match globalField c.paramName with
      | some f =>
        -- the message is all that comes of the check
        (if c.paramName ∈ globalFieldsParameters ∧ isCorrectParameter c.paramVal 0 1 = false then
          ["Parameter should be in a range <0, 1>!\n"] else [], some (.global f c.paramVal))
      | none => changeField isIpAddress c
    else (["invalid parameter name: " ++ c.paramName ++ "\n"], none)
  else changeField isIpAddress c

/-! ## The consumers -/

/-- The number of the mask in `make_net_config`, if it goes on. -/
def prefixLength (mask : List Char) : Option ℤ :=
  let imask := atoi mask
  if imask < 0 ∨ 32 < imask then none else some imask

/-- `get_number`, an `unsigned int`. -/
def getNumber (data : List Char) : ℕ := (atoi data % 2 ^ 32).toNat

/-- `make_sys_config` compares the text with `1`, and takes any other for `0`. -/
def vaFreeMemNumber (vaFreeMemEnable : List Char) : ℕ := if vaFreeMemEnable = ['1'] then 1 else 0

def isXmlBlank (c : Char) : Bool := c = ' ' || c = '\t' || c = '\n' || c = '\r'

/-- What is read of a text from the file: the blanks around it are dropped. -/
def trimWhitespace (s : List Char) : List Char := ((s.dropWhile isXmlBlank).reverse.dropWhile isXmlBlank).reverse

/-- The parameters that `get_number` is asked for. -/
def flagFields : List GlobalField := [.autoBoot, .debugEnabled, .vaMinFreeMemoryEnabled]

/-! ## The property -/

variable (isIpAddress : List Char → Bool) (s : List Char)

/-- The command saves the value in the field. -/
def Saves (save : Save) : Prop := ∃ c : Change, c.paramVal = s ∧ (configChange isIpAddress c).2 = some save

/-- The number that was checked is the one that is used, and it is the length of a prefix. -/
def MaskRight : Prop :=
  Saves isIpAddress s (.cpu .mask s) →
    prefixLength s = some (strtol .zero s).1 ∧ 1 ≤ (strtol .zero s).1 ∧ (strtol .zero s).1 ≤ 32

def FlagsRight : Prop :=
  ∀ f ∈ flagFields, Saves isIpAddress s (.global f s) → getNumber s = 0 ∨ getNumber s = 1

def VaFreeMemRight : Prop :=
  Saves isIpAddress s (.cpu .vaFreeMem s) →
    vaFreeMemNumber (trimWhitespace s) = 0 ∨ vaFreeMemNumber (trimWhitespace s) = 1

/-- The value means a number that is right for its field to those who use it, whatever field it is saved in. -/
structure Right : Prop where
  mask : MaskRight isIpAddress s
  flags : FlagsRight isIpAddress s
  vaFreeMem : VaFreeMemRight isIpAddress s

/-- Where the text is compared, the number that was checked is also the one that is used. -/
def VaFreeMemAgrees : Prop :=
  Saves isIpAddress s (.cpu .vaFreeMem s) → (vaFreeMemNumber (trimWhitespace s) : ℤ) = (strtol .zero s).1

/-! ## When it holds -/

/-- A mask is decimal, or octal with one digit that counts. -/
def DecimalMask : Prop :=
  isCorrectParameter s 1 32 = true →
    (basePrefix (body s)).1 = 10 ∨ (basePrefix (body s)).1 = 8 ∧ (strtol .zero s).1 < 8

/-- The decimal number at the beginning of the text is 0 or 1, up to multiples of `2 ^ 32` that fit into 64 bits;
a number that is too small for 64 bits becomes 0. -/
def DecimalFlag : Prop := leading s ≤ -2 ^ 63 ∨ leading s < 2 ^ 63 ∧ (leading s % 2 ^ 32 = 0 ∨ leading s % 2 ^ 32 = 1)

/-- The text of `va-min-free-memory-enabled-node` is `1`, but for blanks around it, or its number is 0. -/
def VaFreeMemText : Prop := isCorrectParameter s 0 1 = true → (strtol .zero s).1 = 0 ∨ trimWhitespace s = ['1']

/-! ## What is saved -/

variable {isIpAddress s} {c : Change} {f : CpuField} {g : GlobalField} {v : List Char}

theorem cpuField_name (h : cpuField c.paramName = some f) : f.dataField.name = c.paramName := by
  rw [cpuField] at h
  simpa using List.find?_some h

/-- The values of a CPU that are saved have passed their check. -/
theorem changeField_cpu (h : (changeField isIpAddress c).2 = some (.cpu f v)) :
    f.dataField.name = c.paramName ∧ v = c.paramVal ∧
      (f = .vaFreeMem → isCorrectParameter v 0 1 = true) ∧ (f = .mask → isCorrectParameter v 1 32 = true) := by
  rw [changeField] at h
  cases hfield : cpuField c.paramName with
  | none =>
    simp only [hfield] at h
    split_ifs at h
    obtain ⟨b, -, hb⟩ := Option.map_eq_some_iff.mp h
    cases hb
  | some f' =>
    simp only [hfield] at h
    split_ifs at h with hfree hids hip hmask
    obtain ⟨rfl, rfl⟩ : f' = f ∧ c.paramVal = v := by simpa using h
    have hname := cpuField_name hfield
    refine ⟨hname, rfl, ?_, ?_⟩
    · rintro rfl
      by_contra hcheck
      exact hfree ⟨hname.symm, by simpa using hcheck⟩
    · rintro rfl
      by_contra hcheck
      exact hmask ⟨hname.symm, by simpa using hcheck⟩

theorem configChange_cpu (h : (configChange isIpAddress c).2 = some (.cpu f v)) :
    (changeField isIpAddress c).2 = some (.cpu f v) := by
  rw [configChange] at h
  cases hglobal : globalField c.paramName with
  | none =>
    simp only [hglobal] at h
    split_ifs at h <;> exact h
  | some g =>
    simp only [hglobal] at h
    split_ifs at h
    all_goals first | exact h | cases h

theorem saves_mask_iff : Saves isIpAddress s (.cpu .mask s) ↔ isCorrectParameter s 1 32 = true := by
  constructor
  · rintro ⟨c, -, h⟩
    exact (changeField_cpu (configChange_cpu h)).2.2.2 rfl
  · intro hcheck
    refine ⟨⟨0, none, none, none, "mask", s⟩, rfl, ?_⟩
    have hcontains : containsField "mask" = true := by decide
    have hglobal : globalField "mask" = none := by decide
    have hcpu : cpuField "mask" = some .mask := by decide
    simp [configChange, changeField, hcontains, hglobal, hcpu, hcheck, CpuField.dataField]

theorem saves_vaFreeMem_iff : Saves isIpAddress s (.cpu .vaFreeMem s) ↔ isCorrectParameter s 0 1 = true := by
  constructor
  · rintro ⟨c, -, h⟩
    exact (changeField_cpu (configChange_cpu h)).2.2.1 rfl
  · intro hcheck
    refine ⟨⟨0, none, none, none, "va-min-free-memory-enabled-node", s⟩, rfl, ?_⟩
    have hcontains : containsField "va-min-free-memory-enabled-node" = true := by decide
    have hglobal : globalField "va-min-free-memory-enabled-node" = none := by decide
    have hcpu : cpuField "va-min-free-memory-enabled-node" = some .vaFreeMem := by decide
    simp [configChange, changeField, hcontains, hglobal, hcpu, hcheck, CpuField.dataField]

theorem saves_global (g : GlobalField) : Saves isIpAddress s (.global g s) := by
  have hglobal : globalField g.dataField.name = some g := by cases g <;> decide
  refine ⟨⟨0, none, none, none, g.dataField.name, s⟩, rfl, ?_⟩
  simp [configChange, containsField, hglobal]

/-! ## Masks -/

theorem isCorrectParameter_iff {lo hi : ℤ} :
    isCorrectParameter s lo hi = true ↔
      (strtol .zero s).2 = [] ∧ lo ≤ (strtol .zero s).1 ∧ (strtol .zero s).1 ≤ hi := by
  simp [isCorrectParameter, and_assoc]

/-- A number of the range has no minus sign. -/
theorem number_of_saturate {neg : Bool} {n : ℕ} {k : ℤ} (hk : 1 ≤ k) (hle : k ≤ 32) (h : k = saturate (signed neg n)) :
    neg = false ∧ k = n := by
  cases neg
  · refine ⟨rfl, ?_⟩
    rw [signed, if_neg (by decide), saturate] at h
    omega
  · rw [signed, if_pos rfl, saturate] at h
    omega

theorem toInt_of_lt {n : ℕ} (h : n < 10 ^ 2) : toInt (saturate n) = n := by
  rw [saturate_natCast, toInt, Int.bmod_eq_of_le] <;> omega

theorem prefixLength_eq_some_iff {n : ℤ} (hlow : 1 ≤ n) (hhigh : n ≤ 32) :
    prefixLength s = some n ↔ atoi s = n := by
  rw [prefixLength]
  by_cases h : atoi s < 0 ∨ 32 < atoi s
  · simp only [if_pos h, reduceCtorEq, false_iff]
    omega
  · simp only [if_neg h, Option.some.injEq]

theorem maskRight_iff : MaskRight isIpAddress s ↔ DecimalMask s := by
  rw [MaskRight, saves_mask_iff, DecimalMask]
  refine imp_congr_right fun hcheck ↦ ?_
  obtain ⟨hrest, hlow, hhigh⟩ := isCorrectParameter_iff.mp hcheck
  have hstrtol : strtol .zero s = ((strtol .zero s).1, []) := Prod.ext rfl hrest
  have hne : (strtol .zero s).1 ≠ 0 := by omega
  rw [prefixLength_eq_some_iff hlow hhigh, and_iff_left ⟨hlow, hhigh⟩, atoi_eq, leading]
  rcases basePrefix_cases (body s) with hbase | hbase | ⟨x, c, ds, hx, hbody, hbase⟩
  · -- decimal
    obtain ⟨hdigits, hvalue⟩ := strtol_zero_whole hbase hstrtol hne
    obtain ⟨hneg, hnumber⟩ := number_of_saturate hlow hhigh hvalue
    have htake : (body s).takeWhile (isDigit 10) = body s := List.takeWhile_eq_self_iff.mpr hdigits
    rw [htake, hneg, signed, if_neg (by decide), toInt_of_lt (by omega), hbase, ← hnumber]
    exact ⟨fun _ ↦ Or.inl rfl, fun _ ↦ rfl⟩
  · -- octal
    obtain ⟨hdigits, hvalue⟩ := strtol_zero_whole hbase hstrtol hne
    obtain ⟨hneg, hnumber⟩ := number_of_saturate hlow hhigh hvalue
    have hdigits' : ∀ c ∈ body s, isDigit 10 c = true := fun c hc ↦ isDigit_mono (by decide) (hdigits c hc)
    have htake : (body s).takeWhile (isDigit 10) = body s := List.takeWhile_eq_self_iff.mpr hdigits'
    have hiff := number_ten_eq_iff hdigits
    rw [htake, hneg, signed, if_neg (by decide), toInt_of_lt (number_ten_lt hdigits (by omega)), hbase]
    constructor
    · intro heq
      exact Or.inr ⟨rfl, by omega⟩
    · rintro (h | ⟨-, hlt⟩)
      · cases h
      · omega
  · -- hexadecimal: `atoi` stops at the letter
    have htake : (body s).takeWhile (isDigit 10) = ['0'] := by
      rw [hbody, List.takeWhile_cons_of_pos (by decide), List.takeWhile_cons_of_neg (by rw [isDigit_of_isX hx]; decide)]
    have hzero : toInt (saturate (signed (negative s) (number 10 ['0']))) = 0 := by
      cases negative s <;> decide
    rw [htake, hzero, hbase]
    constructor
    · intro heq
      exact absurd heq.symm hne
    · rintro (h | ⟨h, -⟩)
      · cases h
      · cases h

/-! ## Flags -/

theorem flagsRight_iff : FlagsRight isIpAddress s ↔ DecimalFlag s := by
  have hnumber : getNumber s = (saturate (leading s) % 2 ^ 32).toNat := by
    rw [getNumber, atoi_eq, toInt]
    exact congrArg Int.toNat Int.bmod_emod
  have hiff : getNumber s = 0 ∨ getNumber s = 1 ↔ DecimalFlag s := by
    rw [hnumber, DecimalFlag, saturate]
    omega
  rw [← hiff]
  exact ⟨fun h ↦ h .autoBoot (by decide) (saves_global _), fun h _ _ _ ↦ h⟩

theorem vaFreeMemRight : VaFreeMemRight isIpAddress s := by
  intro _
  rw [vaFreeMemNumber]
  split_ifs
  · exact Or.inr rfl
  · exact Or.inl rfl

theorem isBlank_of_isXmlBlank {c : Char} (h : isXmlBlank c = true) : Strtoull.isBlank c = true := by
  simp only [isXmlBlank, Bool.or_eq_true, decide_eq_true_eq] at h
  rcases h with ((rfl | rfl) | rfl) | rfl <;> decide

/-- A text that is read as `1` is `1` with blanks around it. -/
theorem exists_of_trimWhitespace (h : trimWhitespace s = ['1']) :
    ∃ before after, s = before ++ '1' :: after ∧ (∀ c ∈ before, isXmlBlank c = true) ∧
      ∀ c ∈ after, isXmlBlank c = true := by
  have hend : (s.dropWhile isXmlBlank).reverse.dropWhile isXmlBlank = ['1'] := List.reverse_eq_iff.mp h
  have hback := List.takeWhile_append_dropWhile (p := isXmlBlank) (l := (s.dropWhile isXmlBlank).reverse)
  rw [hend] at hback
  have hrest := List.reverse_eq_iff.mp hback.symm
  rw [List.reverse_append, List.reverse_singleton, List.singleton_append] at hrest
  have hfront := List.takeWhile_append_dropWhile (p := isXmlBlank) (l := s)
  rw [hrest] at hfront
  exact ⟨_, _, hfront.symm, fun c hc ↦ List.mem_takeWhile_imp hc,
    fun c hc ↦ List.mem_takeWhile_imp (List.mem_reverse.mp hc)⟩

theorem strtol_of_trimWhitespace (h : trimWhitespace s = ['1']) : (strtol .zero s).1 = 1 := by
  obtain ⟨before, after, rfl, hbefore, hafter⟩ := exists_of_trimWhitespace h
  have hdrop : (before ++ '1' :: after).dropWhile Strtoull.isBlank = '1' :: after := by
    rw [List.dropWhile_append_of_pos fun c hc ↦ isBlank_of_isXmlBlank (hbefore c hc)]
    exact List.dropWhile_cons_of_neg (by decide)
  have htake : after.takeWhile (isDigit 10) = [] := by
    cases after with
    | nil => rfl
    | cons c cs =>
      refine List.takeWhile_cons_of_neg fun hdigit ↦ ?_
      have hblank := isBlank_of_isXmlBlank (hafter c List.mem_cons_self)
      rw [Strtoull.isBlank_of_isHex (isHex_of_isDigit hdigit)] at hblank
      exact Bool.false_ne_true hblank
  have hdigits : ('1' :: after).takeWhile (isDigit 10) = ['1'] := by
    rw [List.takeWhile_cons_of_pos (by decide), htake]
  have hbase : basePrefix ('1' :: after) = (10, '1' :: after) := rfl
  rw [strtol, hdrop, Strtoull.sign_of_isHex (by decide)]
  simp only [Base.of, hbase, hdigits, if_neg (List.cons_ne_nil '1' [])]
  decide

theorem vaFreeMemAgrees_iff : VaFreeMemAgrees isIpAddress s ↔ VaFreeMemText s := by
  rw [VaFreeMemAgrees, saves_vaFreeMem_iff, VaFreeMemText]
  refine imp_congr_right fun _ ↦ ?_
  rw [vaFreeMemNumber]
  split_ifs with hone
  · rw [strtol_of_trimWhitespace hone]
    exact ⟨fun _ ↦ Or.inr hone, fun _ ↦ rfl⟩
  · constructor
    · intro h
      exact Or.inl h.symm
    · rintro (h | h)
      · exact h.symm
      · exact absurd h hone

/-- A value means the right number to those who use it if and only if it is right as a decimal number; the text that
is compared also means the number that was checked if and only if it is `1` or the number is 0. -/
theorem right_iff (isIpAddress : List Char → Bool) (s : List Char) :
    (Right isIpAddress s ↔ DecimalMask s ∧ DecimalFlag s) ∧ (VaFreeMemAgrees isIpAddress s ↔ VaFreeMemText s) := by
  refine ⟨?_, vaFreeMemAgrees_iff⟩
  have hmask : MaskRight isIpAddress s ↔ DecimalMask s := maskRight_iff
  have hflags : FlagsRight isIpAddress s ↔ DecimalFlag s := flagsRight_iff
  rw [← hmask, ← hflags]
  exact ⟨fun h ↦ ⟨h.mask, h.flags⟩, fun h ↦ ⟨h.1, h.2, vaFreeMemRight⟩⟩

/-- The mask is checked as 24, and used as 0. -/
theorem hexadecimal_mask_wrong : ¬ Right (fun _ ↦ false) "0x18".toList := by
  intro h
  have hsaves : Saves (fun _ ↦ false) "0x18".toList (.cpu .mask "0x18".toList) := saves_mask_iff.mpr (by decide)
  have hlength := (h.mask hsaves).1
  revert hlength
  decide

end Vcass.Vcactl.ConfigChange
