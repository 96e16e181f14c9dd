import Mathlib.Algebra.Order.Ring.Nat
import Vcass.Lib.Crc

/-!
# EEPROM images

An image for the EEPROM of the switch has a header of four bytes, the configuration, in entries of six bytes, and
a check sum of four bytes. Before an image is written its header is compared with its length, and the check sum is
computed again.

The sum covers the image from its third byte on, in words of 32 bits; if two bytes are left in the end, they make
a word of their own. A change that is confined to one of these words, or to the sum, does not pass.
-/

namespace Vcass.Plx.Eeprom

/-! ## The code -/

inductive PlxEepRetval
  | statusOk
  | internalError
  | timeout
  deriving DecidableEq, Repr

def startCrcOffset : ℕ := 2

def headerLengthByte : ℕ := 4

def crcLengthByte : ℕ := 4

def configurationAlignmentByte : ℕ := 6

def validationHeader : BitVec 8 := 0x5a

def constCrcXorValue : BitVec 32 := 0xdb710641

def byteAt (data : List UInt8) (i : ℕ) : BitVec 8 := (data.getD i 0).toBitVec

/-- `*(u16 *)(data + i)`. -/
def le16 (data : List UInt8) (i : ℕ) : BitVec 16 := byteAt data (i + 1) ++ byteAt data i

/-- `*(u32 *)(data + i)`. -/
def le32 (data : List UInt8) (i : ℕ) : BitVec 32 := le16 data (i + 2) ++ le16 data i

/-- The word of the loop at an offset. -/
def nextCrcValue (data : List UInt8) (crcEndOffset crcOffset : ℕ) : BitVec 32 :=
  if crcEndOffset - crcOffset = 2 then (le16 data crcOffset).setWidth 32 else le32 data crcOffset

/-- The rounds with a word. -/
def crcRounds (nextCrcValue crcCalculated : BitVec 32) : BitVec 32 :=
  (List.range 32).foldl (fun crcCalculated i ↦
    crcCalculated <<< 1 ^^^
      if (crcCalculated ^^^ nextCrcValue <<< i) &&& 1 <<< 31 ≠ 0 then constCrcXorValue else 0) crcCalculated

/-- The offsets of the loop, from one on; a round goes on by four bytes, so that the end bounds their number. -/
def crcOffsets (crcEndOffset : ℕ) : (fuel crcOffset : ℕ) → List ℕ
  | 0, _ => []
  | fuel + 1, crcOffset =>
    if crcOffset < crcEndOffset then crcOffset :: crcOffsets crcEndOffset fuel (crcOffset + 4) else []

/-- The offsets of all words that the sum covers. -/
def crcWords (eepromSize : ℕ) : List ℕ :=
  crcOffsets (eepromSize - crcLengthByte) (eepromSize - crcLengthByte) startCrcOffset

def crcCalculated (data : List UInt8) : BitVec 32 :=
  (crcWords data.length).foldl
    (fun crc crcOffset ↦ crcRounds (nextCrcValue data (data.length - crcLengthByte) crcOffset) crc) (BitVec.allOnes 32)

def eepromCheckCrc (data : List UInt8) : PlxEepRetval :=
  if crcCalculated data ≠ le32 data (data.length - crcLengthByte) then .internalError else .statusOk

/-- `header->configuration_size`. -/
def configurationSize (data : List UInt8) : ℕ := (le16 data 2).toNat

def eepromValidate (data : List UInt8) : PlxEepRetval :=
  if data.length ≤ headerLengthByte + crcLengthByte then .internalError
  else if configurationSize data % configurationAlignmentByte ≠ 0 then .internalError
  else if data.length - headerLengthByte - crcLengthByte ≠ configurationSize data then .internalError
  else if byteAt data 0 ≠ validationHeader then .internalError
  else eepromCheckCrc data

/-! ## The check sum -/

variable {data data' : List UInt8} {o i n fuel : ℕ}

/-- How many bytes the word at an offset has. -/
def wordLength (eepromSize o : ℕ) : ℕ := if eepromSize - crcLengthByte - o = 2 then 2 else 4

/-- In an image of even length the words end where the sum begins. -/
theorem add_wordLength_le {eepromSize : ℕ} (hlen : crcLengthByte < eepromSize) (heven : eepromSize % 2 = 0)
    (hlt : o < eepromSize - crcLengthByte) (hmod : o % 4 = startCrcOffset % 4) :
    o + wordLength eepromSize o ≤ eepromSize - crcLengthByte := by
  have htail : wordLength eepromSize o = 2 ∨ eepromSize - crcLengthByte - o ≠ 2 ∧ wordLength eepromSize o = 4 := by
    unfold wordLength
    split_ifs with h
    · exact Or.inl rfl
    · exact Or.inr ⟨h, rfl⟩
  have htwo : wordLength eepromSize o = 2 → eepromSize - crcLengthByte - o = 2 := by
    unfold wordLength
    split_ifs with h
    · exact fun _ ↦ h
    · exact nofun
  simp only [crcLengthByte, startCrcOffset] at hlen hlt hmod htail htwo ⊢
  omega

theorem and_one_shiftLeft_ne_zero (x : BitVec 32) : x &&& 1 <<< 31 ≠ 0 ↔ x.msb = true := by
  have hmsb : x.msb = x.getLsbD 31 := BitVec.msb_eq_getLsbD_last x
  have hbit : (1 <<< 31 : BitVec 32) = BitVec.twoPow 32 31 := rfl
  rw [hbit, BitVec.and_twoPow, hmsb]
  cases x.getLsbD 31 <;> decide

/-- The rounds are those of a cyclic redundancy check. -/
theorem crcRounds_eq (next crc : BitVec 32) : crcRounds next crc = Crc.addWord constCrcXorValue crc next := by
  rw [crcRounds, Crc.addWord]
  congr 1
  funext crc i
  rw [Crc.round, Crc.mask]
  simp only [and_one_shiftLeft_ne_zero]

theorem crcCalculated_eq (data : List UInt8) : crcCalculated data = Crc.sum constCrcXorValue (BitVec.allOnes 32)
    ((crcWords data.length).map fun o ↦ nextCrcValue data (data.length - crcLengthByte) o) := by
  rw [crcCalculated, Crc.sum, List.foldl_map]
  simp only [crcRounds_eq]

theorem append_inj {m n : ℕ} {x x' : BitVec m} {y y' : BitVec n} : x ++ y = x' ++ y' ↔ y = y' ∧ x = x' := by
  constructor
  · intro h
    constructor
    · rw [← BitVec.extractLsb'_append_eq_right (a := x) (b := y), h, BitVec.extractLsb'_append_eq_right]
    · rw [← BitVec.extractLsb'_append_eq_left (a := x) (b := y), h, BitVec.extractLsb'_append_eq_left]
  · rintro ⟨rfl, rfl⟩
    rfl

theorem le16_congr_iff :
    le16 data' i = le16 data i ↔ ∀ j, i ≤ j → j < i + 2 → byteAt data' j = byteAt data j := by
  rw [le16, le16, append_inj]
  constructor
  · rintro ⟨h₀, h₁⟩ j hle hlt
    obtain rfl | rfl : j = i ∨ j = i + 1 := by omega
    · exact h₀
    · exact h₁
  · intro h
    exact ⟨h i (Nat.le_refl i) (by omega), h (i + 1) (by omega) (by omega)⟩

theorem le32_congr_iff :
    le32 data' i = le32 data i ↔ ∀ j, i ≤ j → j < i + 4 → byteAt data' j = byteAt data j := by
  rw [le32, le32, append_inj, le16_congr_iff, le16_congr_iff]
  constructor
  · rintro ⟨h₀, h₁⟩ j hle hlt
    by_cases hj : j < i + 2
    · exact h₀ j hle hj
    · exact h₁ j (by omega) (by omega)
  · intro h
    exact ⟨fun j hle hlt ↦ h j hle (by omega), fun j hle hlt ↦ h j (by omega) (by omega)⟩

/-- The word depends on its bytes, and the bytes on the word. -/
theorem nextCrcValue_congr_iff {eepromSize : ℕ} :
    nextCrcValue data' (eepromSize - crcLengthByte) o = nextCrcValue data (eepromSize - crcLengthByte) o ↔
      ∀ j, o ≤ j → j < o + wordLength eepromSize o → byteAt data' j = byteAt data j := by
  rw [nextCrcValue, nextCrcValue, wordLength]
  split_ifs with htail
  · rw [← le16_congr_iff]
    constructor
    · intro h
      have hlow := congrArg (BitVec.setWidth 16) h
      rw [BitVec.setWidth_setWidth_of_le _ (by decide), BitVec.setWidth_setWidth_of_le _ (by decide),
        BitVec.setWidth_eq, BitVec.setWidth_eq] at hlow
      exact hlow
    · intro h
      rw [h]
  · exact le32_congr_iff

theorem crcOffsets_spec (crcEndOffset fuel i : ℕ) :
    (∀ o ∈ crcOffsets crcEndOffset fuel i, i ≤ o ∧ o < crcEndOffset ∧ o % 4 = i % 4) ∧
      (crcOffsets crcEndOffset fuel i).Pairwise fun o o' ↦ o + 4 ≤ o' := by
  induction fuel generalizing i with
  | zero => exact ⟨nofun, List.Pairwise.nil⟩
  | succ fuel ih =>
    rw [crcOffsets]
    split_ifs with hi
    · obtain ⟨hmem, hpair⟩ := ih (i + 4)
      refine ⟨fun o ho ↦ ?_, List.pairwise_cons.mpr ⟨fun o ho ↦ (hmem o ho).1, hpair⟩⟩
      rcases List.mem_cons.mp ho with rfl | ho
      · exact ⟨Nat.le_refl _, hi, rfl⟩
      · have h := hmem o ho
        omega
    · exact ⟨nofun, List.Pairwise.nil⟩

theorem length_of_validate (h : eepromValidate data = .statusOk) :
    8 < data.length ∧ (data.length - 8) % 6 = 0 ∧ data.length < 8 + 2 ^ 16 ∧ eepromCheckCrc data = .statusOk := by
  have hsize : configurationSize data < 2 ^ 16 := (le16 data 2).isLt
  unfold eepromValidate at h
  split at h
  · cases h
  · split at h
    · cases h
    · split at h
      · cases h
      · split at h
        · cases h
        · simp only [headerLengthByte, crcLengthByte, configurationAlignmentByte] at *
          exact ⟨by omega, by omega, by omega, h⟩

/-! ## Changes -/

/-- The images have one length, and the same bytes but for some. -/
def SameOutside (data data' : List UInt8) (o len : ℕ) : Prop :=
  data'.length = data.length ∧ ∀ i, i < o ∨ o + len ≤ i → data'[i]? = data[i]?

theorem SameOutside.byteAt_eq {len : ℕ} (h : SameOutside data data' o len) (hi : i < o ∨ o + len ≤ i) :
    byteAt data' i = byteAt data i := by
  rw [byteAt, byteAt, List.getD_eq_getElem?_getD, List.getD_eq_getElem?_getD, h.2 i hi]

theorem SameOutside.eq {len : ℕ} (h : SameOutside data data' o len)
    (hrest : ∀ i, o ≤ i → i < o + len → byteAt data' i = byteAt data i) : data' = data := by
  apply List.ext_getElem? 
  intro i
  by_cases hi : i < o ∨ o + len ≤ i
  · exact h.2 i hi
  · have hbyte := hrest i (by omega) (by omega)
    rw [byteAt, byteAt, UInt8.toBitVec_inj, List.getD_eq_getElem?_getD, List.getD_eq_getElem?_getD] at hbyte
    by_cases hlt : i < data.length
    · have hlt' : i < data'.length := h.1.symm ▸ hlt
      rw [List.getElem?_eq_getElem hlt, List.getElem?_eq_getElem hlt'] at hbyte ⊢
      exact congrArg some hbyte
    · have hge : data.length ≤ i := Nat.le_of_not_lt hlt
      rw [List.getElem?_eq_none hge, List.getElem?_eq_none (h.1.symm ▸ hge)]

/-- A change within a word changes the sum. -/
theorem crcCalculated_ne (ho : o ∈ crcWords data.length)
    (h : SameOutside data data' o (wordLength data.length o)) (hne : data' ≠ data) :
    crcCalculated data' ≠ crcCalculated data := by
  obtain ⟨hmem, hpair⟩ := crcOffsets_spec (data.length - crcLengthByte) (data.length - crcLengthByte) startCrcOffset
  obtain ⟨l, l', hsplit⟩ := List.append_of_mem ho
  have hlen : wordLength data.length o ≤ 4 := by
    rw [wordLength]
    split_ifs <;> omega
  rw [crcWords] at hsplit
  rw [hsplit, List.pairwise_append, List.pairwise_cons] at hpair
  -- the words before and after are the same
  have hbefore : ∀ o' ∈ l, nextCrcValue data' (data.length - crcLengthByte) o' =
      nextCrcValue data (data.length - crcLengthByte) o' := by
    intro o' ho'
    have hle : o' + 4 ≤ o := hpair.2.2 o' ho' o List.mem_cons_self
    have hlen' : wordLength data.length o' ≤ 4 := by
      rw [wordLength]
      split_ifs <;> omega
    exact nextCrcValue_congr_iff.mpr fun j _ hj ↦ h.byteAt_eq (Or.inl (by omega))
  have hafter : ∀ o' ∈ l', nextCrcValue data' (data.length - crcLengthByte) o' =
      nextCrcValue data (data.length - crcLengthByte) o' := by
    intro o' ho'
    have hle : o + 4 ≤ o' := hpair.2.1.1 o' ho'
    exact nextCrcValue_congr_iff.mpr fun j hj _ ↦ h.byteAt_eq (Or.inr (by omega))
  have hword : nextCrcValue data' (data.length - crcLengthByte) o ≠
      nextCrcValue data (data.length - crcLengthByte) o := by
    intro heq
    exact hne (h.eq (nextCrcValue_congr_iff.mp heq))
  rw [crcCalculated_eq, crcCalculated_eq, h.1, crcWords, hsplit, List.map_append, List.map_append, List.map_cons,
    List.map_cons, List.map_congr_left hbefore, List.map_congr_left hafter]
  exact Crc.sum_ne (by decide) hword

/-- The sum does not depend on itself. -/
theorem crcCalculated_congr (hlen : crcLengthByte < data.length) (heven : data.length % 2 = 0)
    (h : SameOutside data data' (data.length - crcLengthByte) crcLengthByte) :
    crcCalculated data' = crcCalculated data := by
  have hwords : ∀ o ∈ crcWords data.length, nextCrcValue data' (data.length - crcLengthByte) o =
      nextCrcValue data (data.length - crcLengthByte) o := by
    intro o ho
    obtain ⟨-, hlt, hmod⟩ := (crcOffsets_spec _ _ _).1 o ho
    have hlast := add_wordLength_le hlen heven hlt hmod
    exact nextCrcValue_congr_iff.mpr fun j _ hj ↦ h.byteAt_eq (Or.inl (Nat.lt_of_lt_of_le hj hlast))
  rw [crcCalculated_eq, crcCalculated_eq, h.1, List.map_congr_left hwords]

theorem le32_congr_of_lt (h : SameOutside data data' o n) (hi : o + n ≤ i) : le32 data' i = le32 data i :=
  le32_congr_iff.mpr fun _ hj _ ↦ h.byteAt_eq (Or.inr (Nat.le_trans hi hj))

/-- **A changed word is detected.** An image that differs from a valid one within one of the words that are summed,
or within the sum, is rejected. -/
theorem changed_word_rejected (hvalid : eepromValidate data = .statusOk) (hne : data' ≠ data)
    (h : (∃ o ∈ crcWords data.length, SameOutside data data' o (wordLength data.length o)) ∨
      SameOutside data data' (data.length - crcLengthByte) crcLengthByte) :
    eepromCheckCrc data' = .internalError := by
  obtain ⟨hlen, hmod, -, hcrc⟩ := length_of_validate hvalid
  have hlen' : crcLengthByte < data.length := Nat.lt_trans (by decide) hlen
  have heven : data.length % 2 = 0 := by omega
  have hsum : crcCalculated data = le32 data (data.length - crcLengthByte) := by
    by_contra hsum
    rw [eepromCheckCrc, if_pos hsum] at hcrc
    cases hcrc
  rw [eepromCheckCrc, if_pos]
  rcases h with ⟨o, ho, h⟩ | h
  · obtain ⟨-, hlt, hmod⟩ := (crcOffsets_spec _ _ _).1 o ho
    have hlast := add_wordLength_le hlen' heven hlt hmod
    rw [h.1, le32_congr_of_lt h hlast, ← hsum]
    exact crcCalculated_ne ho h hne
  · rw [crcCalculated_congr hlen' heven h, hsum, h.1]
    intro heq
    refine hne (h.eq fun j hj hlt ↦ ?_)
    exact le32_congr_iff.mp heq.symm j hj hlt

/-! ## Images from entries -/

/-- The bytes of a word, the lowest first. -/
def bytesOf (v : BitVec 32) : List UInt8 :=
  [⟨v.extractLsb' 0 8⟩, ⟨v.extractLsb' 8 8⟩, ⟨v.extractLsb' 16 8⟩, ⟨v.extractLsb' 24 8⟩]

/-- The header of an image with so many bytes of entries. -/
def headerOf (size : BitVec 16) : List UInt8 := [⟨validationHeader⟩, 0, ⟨size.extractLsb' 0 8⟩, ⟨size.extractLsb' 8 8⟩]

/-- The image with these entries and the right sum. -/
def imageOf (entries : List UInt8) : List UInt8 :=
  headerOf (BitVec.ofNat 16 entries.length) ++ entries ++
    bytesOf (crcCalculated (headerOf (BitVec.ofNat 16 entries.length) ++ entries ++ bytesOf 0))

theorem extract_bytes (v : BitVec 32) : v.extractLsb' 24 8 ++ v.extractLsb' 16 8 ++
    (v.extractLsb' 8 8 ++ v.extractLsb' 0 8) = v := by
  have hhigh : v.extractLsb' 24 8 ++ v.extractLsb' 16 8 = v.extractLsb' 16 16 :=
    BitVec.extractLsb'_append_extractLsb'_eq_extractLsb' rfl
  have hlow : v.extractLsb' 8 8 ++ v.extractLsb' 0 8 = v.extractLsb' 0 16 :=
    BitVec.extractLsb'_append_extractLsb'_eq_extractLsb' rfl
  rw [hhigh, hlow]
  exact (BitVec.extractLsb'_append_extractLsb'_eq_extractLsb' rfl).trans BitVec.extractLsb'_eq_self

theorem le32_bytesOf (l : List UInt8) (v : BitVec 32) : le32 (l ++ bytesOf v) l.length = v := by
  simp only [le32, le16, byteAt, List.getD_eq_getElem?_getD, Nat.add_assoc]
  rw [List.getElem?_append_right (Nat.le_refl _), List.getElem?_append_right (Nat.le_add_right _ _),
    List.getElem?_append_right (Nat.le_add_right _ _), List.getElem?_append_right (Nat.le_add_right _ _)]
  simp only [Nat.add_sub_cancel_left, Nat.sub_self]
  exact extract_bytes v

@[simp] theorem length_imageOf (entries : List UInt8) : (imageOf entries).length = entries.length + 8 := by
  simp [imageOf, headerOf, bytesOf]

theorem imageOf_valid {entries : List UInt8} (hpos : entries ≠ []) (hmod : entries.length % 6 = 0)
    (hlen : entries.length < 2 ^ 16) : eepromValidate (imageOf entries) = .statusOk := by
  have hsize : configurationSize (imageOf entries) = entries.length := by
    have hle16 : le16 (imageOf entries) 2 = BitVec.ofNat 16 entries.length :=
      (BitVec.extractLsb'_append_extractLsb'_eq_extractLsb' rfl).trans BitVec.extractLsb'_eq_self
    rw [configurationSize, hle16, BitVec.toNat_ofNat, Nat.mod_eq_of_lt hlen]
  have hpos' : 0 < entries.length := List.length_pos_iff.mpr hpos
  have hlong : ¬ (imageOf entries).length ≤ headerLengthByte + crcLengthByte := by
    rw [length_imageOf, headerLengthByte, crcLengthByte]
    omega
  have haligned : ¬ configurationSize (imageOf entries) % configurationAlignmentByte ≠ 0 := by
    rw [hsize, configurationAlignmentByte, hmod]
    exact fun h ↦ h rfl
  have hexact : ¬ (imageOf entries).length - headerLengthByte - crcLengthByte ≠ configurationSize (imageOf entries) := by
    rw [hsize, length_imageOf, headerLengthByte, crcLengthByte]
    omega
  rw [eepromValidate, if_neg hlong, if_neg haligned, if_neg hexact, if_neg (fun h ↦ h rfl), eepromCheckCrc, if_neg]
  -- the image has the sum of the image without a sum
  rw [ne_eq, not_not]
  let l := headerOf (BitVec.ofNat 16 entries.length) ++ entries
  have hl : l.length = entries.length + 4 := by simp [l, headerOf]
  have hblank : (l ++ bytesOf 0).length = entries.length + 8 := by simp [hl, bytesOf]
  have hend : (imageOf entries).length - crcLengthByte = l.length := by
    rw [length_imageOf, hl, crcLengthByte]
    omega
  have hsum : crcCalculated (imageOf entries) = crcCalculated (l ++ bytesOf 0) := by
    apply crcCalculated_congr
    · rw [hblank, crcLengthByte]
      omega
    · omega
    · have hstart : (l ++ bytesOf 0).length - crcLengthByte = l.length := by
        rw [hblank, hl, crcLengthByte]
        omega
      rw [hstart]
      refine ⟨by rw [length_imageOf, hblank], fun i hi ↦ ?_⟩
      rcases hi with hi | hi
      · exact (List.getElem?_append_left hi).trans (List.getElem?_append_left hi).symm
      · rw [List.getElem?_eq_none, List.getElem?_eq_none]
        · rw [hblank]
          rw [hl, crcLengthByte] at hi
          exact hi
        · rw [length_imageOf]
          rw [hl, crcLengthByte] at hi
          exact hi
  rw [hend, hsum]
  exact (le32_bytesOf l _).symm

/-- One entry, all zero. -/
def smallImage : List UInt8 := [0x5a, 0, 6, 0, 0, 0, 0, 0, 0, 0, 0xf9, 0x9d, 0x7c, 0xec]

/-- A byte of the entry is changed. -/
def damagedImage : List UInt8 := smallImage.set 7 1

theorem damagedImage_rejected : eepromCheckCrc damagedImage = .internalError := by
  have hvalid : eepromValidate smallImage = .statusOk := by decide +kernel
  have hdamaged : damagedImage ≠ smallImage := by decide
  refine changed_word_rejected hvalid hdamaged (Or.inl ⟨6, by decide, rfl, fun i hi ↦ ?_⟩)
  have hne : i ≠ 7 := by
    rintro rfl
    exact absurd hi (by decide)
  rw [damagedImage, List.getElem?_set_ne hne.symm]

end Vcass.Plx.Eeprom
