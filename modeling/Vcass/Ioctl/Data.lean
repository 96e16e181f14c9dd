import Mathlib.Data.Int.Basic
import Mathlib.Data.Nat.Digits.Lemmas
import Vcass.Csa.Agent
import Vcass.Plx.Eeprom.Image

/-!
# Requests of variable length

The EEPROM updates and the agent's commands come as a header with a buffer behind it. The header says how long the
buffer is, so that `_vca_get_ioctl_data` fetches from the user's memory twice: the length alone, for the allocation,
and then header and buffer. The user may have changed the length in between, and what the handlers go by is the
length in the header that they got.

## Accesses

The handlers are modelled by what they access in the allocation and behind it, from the beginning of the header on.
-/

namespace Vcass.Ioctl

open Plx.Eeprom

/-! ## The copy -/

/-- The bytes from an address on. -/
abbrev Memory := ℕ → UInt8

/-- The header is a return value and the length of the buffer. -/
def headerSize : ℕ := 16

/-- `offsetof(…, buf_size)`. -/
def bufSizeOffset : ℕ := 8

/-- The `size_t` at an offset. -/
def sizeT (mem : Memory) (o : ℕ) : ℕ := Nat.ofDigits 256 ((List.range 8).map fun i ↦ (mem (o + i)).toNat)

/-- The field `buf_size` of a header. -/
def bufSize (mem : Memory) : ℕ := sizeT mem bufSizeOffset

inductive Errno
  | efault
  | e2big
  | enomem
  deriving DecidableEq, Repr

/-- What the call meets: the user's memory at each of the two fetches, and the allocator. -/
structure Env where
  first : Memory
  second : Memory
  firstFaults : Bool
  secondFaults : Bool
  accessOk : ℕ → Bool
  /-- The memory from the allocated address on, for a size. -/
  kzalloc : ℕ → Option Memory

/-- An object that the function returns: `*total_size` and the memory from the pointer on. -/
structure Data where
  totalSize : ℕ
  mem : Memory

/-- `_vca_get_ioctl_data`. -/
def vcaGetIoctlData (env : Env) (maxBufSize inputBufSize : ℕ) : Except Errno Data :=
  if env.firstFaults then .error .efault
  else if maxBufSize < bufSize env.first then .error .e2big
  else if maxBufSize < inputBufSize then .error .e2big
  else
    -- both sums are of type `size_t`
    let totalSize := (headerSize + bufSize env.first) % 2 ^ 64
    let copySize := (headerSize + min inputBufSize (bufSize env.first)) % 2 ^ 64
    if !env.accessOk totalSize then .error .efault
    else
      match env.kzalloc totalSize with
      | none => .error .enomem
      | some heap =>
        if env.secondFaults then .error .efault
        else .ok ⟨totalSize, fun i ↦
          if i < copySize then env.second i else if i < totalSize then 0 else heap i⟩

/-! ## The handlers -/

/-- Bytes that are read or written, from the header on. -/
structure Access where
  offset : ℤ
  length : ℕ
  deriving DecidableEq, Repr

def Access.Inside (totalSize : ℕ) (a : Access) : Prop := 0 ≤ a.offset ∧ a.offset + a.length ≤ totalSize

instance (totalSize : ℕ) : DecidablePred (Access.Inside totalSize) := fun a ↦
  inferInstanceAs (Decidable (0 ≤ a.offset ∧ a.offset + a.length ≤ totalSize))

/-- An access in the buffer. -/
def inBuf (o len : ℕ) : Access := ⟨headerSize + o, len⟩

section Handlers

variable (d : Data)

/-- The buffer, as long as the header says. -/
def Data.buf : List UInt8 := (List.range (bufSize d.mem)).map fun i ↦ d.mem (headerSize + i)

/-- `eeprom_validate` with `eeprom_check_crc`. -/
def validateReads (data : List UInt8) : List Access :=
  if data.length ≤ headerLengthByte + crcLengthByte then []
  else inBuf 0 headerLengthByte ::
    if configurationSize data % configurationAlignmentByte ≠ 0 then []
    else if data.length - headerLengthByte - crcLengthByte ≠ configurationSize data then []
    else if byteAt data 0 ≠ validationHeader then []
    else (crcWords data.length).map (fun o ↦ inBuf o (wordLength data.length o)) ++
      [inBuf (data.length - crcLengthByte) crcLengthByte]

/-- The loop of `plx_update_eeprom`, which an error of the device may end after any pass. -/
def updateReads (eepromSize : ℕ) : (passes : ℕ) → BitVec 16 → List Access
  | 0, _ => []
  | passes + 1, offset =>
    if offset.toNat < eepromSize then
      if eepromSize - offset.toNat = 2 then [inBuf offset.toNat 2]
      else inBuf offset.toNat 4 :: updateReads eepromSize passes (offset + 4)
    else []

/-- `VCA_UPDATE_EEPROM` and `VCA_UPDATE_SECONDARY_EEPROM`, with what is copied back. -/
def updateEepromAccesses (passes : ℕ) : List Access :=
  ⟨bufSizeOffset, 8⟩ :: validateReads d.buf ++
    (if eepromValidate d.buf = .statusOk then updateReads d.buf.length passes 0 else []) ++
    [⟨0, 4⟩, ⟨bufSizeOffset, 8⟩, ⟨0, headerSize⟩]

/-- The boot parameters and the agent's data, as an agent command finds them. -/
structure Card where
  h2cCsaMemDb : UInt8
  /-- The flag when the wait is over. -/
  csaFinished : UInt8
  cardCsaMemInfo : UInt32
  /-- The data could be mapped. -/
  mapped : Bool
  data : Memory

/-- `readq(dma_size)`, which takes in the doorbell, the command and the flag behind the size. -/
def Card.dmaSizeRead (card : Card) (csaCommand : UInt8) : ℕ :=
  card.cardCsaMemInfo.toNat + card.h2cCsaMemDb.toNat * 2 ^ 32 + csaCommand.toNat * 2 ^ 40 +
    card.csaFinished.toNat * 2 ^ 48

/-- `strnlen`. -/
def strnlen (s : Memory) (n : ℕ) : ℕ := ((List.range n).takeWhile fun i ↦ s i ≠ 0).length

/-- `plx_read_dma_mapped_mem` into the buffer: what is written, and the count. -/
def plxReadDmaMappedMem (card : Card) (csaCommand : UInt8) (outBufSize : ℤ) : List Access × ℕ :=
  let size : ℤ := min (card.dmaSizeRead csaCommand : ℤ) (outBufSize - 1)
  let unsigned : ℕ := (size % 2 ^ 64).toNat
  if outBufSize = 0 then ([], 0)
  else if !card.mapped then ([], 0)
  else ([inBuf 0 unsigned, ⟨headerSize + size, 1⟩], strnlen card.data unsigned)

/-- The answer of the card's agent. -/
def readAnswer (card : Card) : List Access × ℕ :=
  -- the length is a `ssize_t` there
  let read := plxReadDmaMappedMem card (d.mem headerSize) (Int.bmod (bufSize d.mem) (2 ^ 64))
  (inBuf 0 1 :: ⟨bufSizeOffset, 8⟩ :: read.1 ++ [⟨bufSizeOffset, 8⟩], read.2)

/-- `_plx_csm_agent_command`: the accesses, and `*size`. -/
def plxCsmAgentCommand (card : Card) : List Access × ℕ :=
  if !Csa.vcaValidateAgentCmd (d.mem headerSize) then ([inBuf 0 1], bufSize d.mem)
  else if card.h2cCsaMemDb = 0 ∨ card.h2cCsaMemDb = 0xff then ([inBuf 0 1], bufSize d.mem)
  else if card.csaFinished = 0 then ([inBuf 0 1], bufSize d.mem)
  else readAnswer d card

/-- `vca_agent_command_ioctl`, from the returned object on. -/
def vcaAgentCommandIoctlAccesses (card : Card) : List Access :=
  let answer := plxCsmAgentCommand d card
  let outSize := (answer.2 + headerSize) % 2 ^ 64
  answer.1 ++ [⟨0, 4⟩, ⟨bufSizeOffset, 8⟩] ++ if d.totalSize < outSize then [] else [⟨0, outSize⟩]

end Handlers

/-- The callers of `vca_get_ioctl_data`. -/
inductive Caller
  | updateEeprom (passes : ℕ)
  | updateSecondaryEeprom (passes : ℕ)
  | agentCommand (card : Card)

/-- `VCA_MAX_AGENT_BUF_SIZE`. -/
def vcaMaxAgentBufSize : ℕ := 4 * 1024

/-- `VCA_MAX_EEPROM_BUF_SIZE`. -/
def vcaMaxEepromBufSize : ℕ := 1024 * 1024

namespace Caller

def maxBufSize : Caller → ℕ
  | updateEeprom _ | updateSecondaryEeprom _ => vcaMaxEepromBufSize
  | agentCommand _ => vcaMaxAgentBufSize

def inputBufSize : Caller → ℕ
  | updateEeprom _ | updateSecondaryEeprom _ => vcaMaxEepromBufSize
  | agentCommand _ => 1

def accesses (d : Data) : Caller → List Access
  | updateEeprom passes | updateSecondaryEeprom passes => updateEepromAccesses d passes
  | agentCommand card => vcaAgentCommandIoctlAccesses d card

/-- The first byte of the buffer is looked at whatever the length is. -/
def TakesCommand : Caller → Prop
  | updateEeprom _ | updateSecondaryEeprom _ => False
  | agentCommand _ => True

end Caller

/-- The length is at most what is allocated behind the header. -/
def Data.Fits (d : Data) : Prop := (bufSize d.mem : ℤ) ≤ d.totalSize - headerSize

instance (d : Data) : Decidable d.Fits :=
  inferInstanceAs (Decidable ((bufSize d.mem : ℤ) ≤ d.totalSize - headerSize))

/-- The object's length fits, and a caller keeps to the allocation. -/
def Safe (d : Data) (c : Caller) : Prop := d.Fits ∧ ∀ a ∈ c.accesses d, a.Inside d.totalSize

/-! ## The returned object -/

variable {env : Env} {maxBufSize inputBufSize : ℕ} {d : Data}

theorem sizeT_lt (mem : Memory) (o : ℕ) : sizeT mem o < 2 ^ 64 := by
  have hlt := Nat.ofDigits_lt_base_pow_length (b := 256) (l := (List.range 8).map fun i ↦ (mem (o + i)).toNat)
    (by norm_num) (by
      intro x hx
      obtain ⟨i, -, rfl⟩ := List.mem_map.mp hx
      exact (mem (o + i)).toNat_lt)
  simpa [sizeT] using hlt

theorem sizeT_congr {mem mem' : Memory} {o : ℕ} (h : ∀ i < 8, mem (o + i) = mem' (o + i)) :
    sizeT mem o = sizeT mem' o := by
  have hdigits : ((List.range 8).map fun i ↦ (mem (o + i)).toNat) =
      (List.range 8).map fun i ↦ (mem' (o + i)).toNat := by
    apply List.map_congr_left
    intro i hi
    rw [h i (List.mem_range.mp hi)]
  rw [sizeT, sizeT, hdigits]

theorem ok_of_vcaGetIoctlData (h : vcaGetIoctlData env maxBufSize inputBufSize = .ok d) :
    bufSize env.first ≤ maxBufSize ∧ d.totalSize = (headerSize + bufSize env.first) % 2 ^ 64 ∧
      ∀ i < (headerSize + min inputBufSize (bufSize env.first)) % 2 ^ 64, d.mem i = env.second i := by
  unfold vcaGetIoctlData at h
  split at h
  · cases h
  split at h
  · cases h
  rename_i hmax
  split at h
  · cases h
  generalize (headerSize + bufSize env.first) % 2 ^ 64 = totalSize at h ⊢
  generalize (headerSize + min inputBufSize (bufSize env.first)) % 2 ^ 64 = copySize at h ⊢
  dsimp only at h
  split at h
  · cases h
  split at h
  · cases h
  split at h
  · cases h
  · obtain rfl := Except.ok.inj h
    exact ⟨Nat.le_of_not_lt hmax, rfl, fun i hi ↦ if_pos hi⟩

theorem bufSize_of_vcaGetIoctlData (h : vcaGetIoctlData env maxBufSize inputBufSize = .ok d)
    (hlt : headerSize + bufSize env.first < 2 ^ 64) :
    d.totalSize = headerSize + bufSize env.first ∧ bufSize d.mem = bufSize env.second := by
  obtain ⟨-, htotal, hmem⟩ := ok_of_vcaGetIoctlData h
  have hcopy : headerSize + min inputBufSize (bufSize env.first) < 2 ^ 64 := by omega
  rw [Nat.mod_eq_of_lt hlt] at htotal
  rw [Nat.mod_eq_of_lt hcopy] at hmem
  refine ⟨htotal, sizeT_congr fun i hi ↦ hmem _ ?_⟩
  simp only [bufSizeOffset, headerSize]
  omega

/-! ## What the handlers access -/

theorem inside_inBuf {totalSize o len : ℕ} : (inBuf o len).Inside totalSize ↔ headerSize + o + len ≤ totalSize := by
  simp only [Access.Inside, inBuf]
  omega

theorem Data.length_buf (d : Data) : d.buf.length = bufSize d.mem := by simp [Data.buf]

/-- What an EEPROM image is read with is in the image. -/
def InImage (data : List UInt8) (a : Access) : Prop := ∃ o len, a = inBuf o len ∧ o + len ≤ data.length

theorem validateReads_mem {data : List UInt8} {a : Access} (ha : a ∈ validateReads data) : InImage data a := by
  unfold validateReads at ha
  split_ifs at ha with hshort halign hmismatch hsignature
  · cases ha
  all_goals simp only [headerLengthByte, crcLengthByte, configurationAlignmentByte] at *
  · obtain rfl := List.mem_singleton.mp ha
    exact ⟨0, 4, rfl, by omega⟩
  · obtain rfl := List.mem_singleton.mp ha
    exact ⟨0, 4, rfl, by omega⟩
  · obtain rfl := List.mem_singleton.mp ha
    exact ⟨0, 4, rfl, by omega⟩
  · -- the length is even, so that no word reaches beyond the sum
    have hlen : crcLengthByte < data.length := by
      simp only [crcLengthByte]
      omega
    have heven : data.length % 2 = 0 := by omega
    rcases List.mem_cons.mp ha with rfl | ha
    · exact ⟨0, 4, rfl, by omega⟩
    rcases List.mem_append.mp ha with ha | ha
    · obtain ⟨o, ho, rfl⟩ := List.mem_map.mp ha
      obtain ⟨-, hlt, hmod⟩ := (crcOffsets_spec _ _ _).1 o ho
      have hend := add_wordLength_le hlen heven hlt hmod
      exact ⟨o, _, rfl, by omega⟩
    · obtain rfl := List.mem_singleton.mp ha
      exact ⟨data.length - 4, 4, rfl, by omega⟩

theorem updateReads_mem {data : List UInt8} (heven : data.length % 2 = 0) (passes : ℕ) {offset : BitVec 16}
    (hoffset : offset.toNat % 4 = 0) {a : Access} (ha : a ∈ updateReads data.length passes offset) :
    InImage data a := by
  induction passes generalizing offset with
  | zero => cases ha
  | succ passes ih =>
    unfold updateReads at ha
    split_ifs at ha with hlt htail
    · obtain rfl := List.mem_singleton.mp ha
      exact ⟨offset.toNat, 2, rfl, by omega⟩
    · rcases List.mem_cons.mp ha with rfl | ha
      · exact ⟨offset.toNat, 4, rfl, by omega⟩
      · have hfour : (4 : BitVec 16).toNat = 4 := rfl
        apply ih _ ha
        rw [BitVec.toNat_add, hfour]
        omega
    · cases ha

/-- An update keeps to the length that it goes by. -/
theorem updateEeprom_inside (hfit : headerSize + bufSize d.mem ≤ d.totalSize) (passes : ℕ) :
    ∀ a ∈ updateEepromAccesses d passes, a.Inside d.totalSize := by
  have himage : ∀ a, InImage d.buf a → a.Inside d.totalSize := by
    rintro a ⟨o, len, rfl, hend⟩
    rw [d.length_buf] at hend
    rw [inside_inBuf]
    omega
  have hheader : ∀ a ∈ [(⟨0, 4⟩ : Access), ⟨bufSizeOffset, 8⟩, ⟨0, headerSize⟩], a.Inside d.totalSize := by
    simp only [headerSize, bufSizeOffset, Access.Inside, List.forall_mem_cons] at *
    refine ⟨?_, ?_, ?_, nofun⟩ <;> omega
  intro a ha
  unfold updateEepromAccesses at ha
  rcases List.mem_append.mp ha with ha | ha
  · rcases List.mem_append.mp ha with ha | ha
    · rcases List.mem_cons.mp ha with rfl | ha
      · exact hheader _ (by simp)
      · exact himage a (validateReads_mem ha)
    · split_ifs at ha with hvalid
      · have heven : d.buf.length % 2 = 0 := by
          have := length_of_validate hvalid
          omega
        exact himage a (updateReads_mem heven passes rfl ha)
      · cases ha
  · exact hheader a ha

theorem strnlen_le (s : Memory) (n : ℕ) : strnlen s n ≤ n := by
  have hle := ((List.range n).takeWhile_sublist fun i ↦ (s i ≠ 0 : Bool)).length_le
  simpa [strnlen] using hle

/-- The data of the card's agent is cut to the length that the read goes by. -/
theorem plxReadDmaMappedMem_spec (card : Card) (csaCommand : UInt8) {outBufSize : ℕ} (hlt : outBufSize < 2 ^ 63) :
    (∀ a ∈ (plxReadDmaMappedMem card csaCommand outBufSize).1, a.Inside (headerSize + outBufSize)) ∧
      (plxReadDmaMappedMem card csaCommand outBufSize).2 ≤ outBufSize := by
  unfold plxReadDmaMappedMem
  simp only
  split_ifs with hzero hmapped
  · exact ⟨nofun, Nat.zero_le _⟩
  · exact ⟨nofun, Nat.zero_le _⟩
  · -- the size is not negative, since the card's is not and there is room for the end of the string
    obtain ⟨n, hn, hle⟩ : ∃ n : ℕ, min (card.dmaSizeRead csaCommand : ℤ) (outBufSize - 1) = n ∧ n + 1 ≤ outBufSize :=
      ⟨min (card.dmaSizeRead csaCommand) (outBufSize - 1), by omega, by omega⟩
    have hunsigned : ((n : ℤ) % 2 ^ 64).toNat = n := by omega
    rw [hn, hunsigned]
    refine ⟨?_, (strnlen_le _ _).trans (by omega)⟩
    simp only [List.forall_mem_cons]
    refine ⟨inside_inBuf.mpr (by omega), ?_, nofun⟩
    simp only [Access.Inside]
    omega

/-- A length of less than half the range is the same as a `ssize_t`. -/
theorem bmod_eq_self {n : ℕ} (hlt : n < 2 ^ 63) : Int.bmod (n : ℤ) (2 ^ 64) = n := by
  apply Int.bmod_eq_of_le <;> omega

theorem readAnswer_spec (hfit : headerSize + bufSize d.mem ≤ d.totalSize) (hlt : bufSize d.mem < 2 ^ 63)
    (hcommand : headerSize + 1 ≤ d.totalSize) (card : Card) :
    (∀ a ∈ (readAnswer d card).1, a.Inside d.totalSize) ∧ (readAnswer d card).2 ≤ bufSize d.mem := by
  have hfield : (⟨bufSizeOffset, 8⟩ : Access).Inside d.totalSize := by
    simp only [Access.Inside, bufSizeOffset, headerSize] at *
    omega
  obtain ⟨hread, hcount⟩ := plxReadDmaMappedMem_spec card (d.mem headerSize) hlt
  simp only [readAnswer, bmod_eq_self hlt]
  refine ⟨?_, hcount⟩
  intro a ha
  rcases List.mem_append.mp ha with ha | ha
  · rcases List.mem_cons.mp ha with rfl | ha
    · exact inside_inBuf.mpr (by omega)
    rcases List.mem_cons.mp ha with rfl | ha
    · exact hfield
    · obtain ⟨hpos, hend⟩ := hread a ha
      exact ⟨hpos, by omega⟩
  · obtain rfl := List.mem_singleton.mp ha
    exact hfield

theorem plxCsmAgentCommand_spec (hfit : headerSize + bufSize d.mem ≤ d.totalSize) (hlt : bufSize d.mem < 2 ^ 63)
    (hcommand : headerSize + 1 ≤ d.totalSize) (card : Card) :
    (∀ a ∈ (plxCsmAgentCommand d card).1, a.Inside d.totalSize) ∧
      (plxCsmAgentCommand d card).2 ≤ bufSize d.mem := by
  have hbyte : ∀ a ∈ [inBuf 0 1], a.Inside d.totalSize :=
    List.forall_mem_singleton.mpr (inside_inBuf.mpr (by omega))
  unfold plxCsmAgentCommand
  split_ifs
  · exact ⟨hbyte, Nat.le_refl _⟩
  · exact ⟨hbyte, Nat.le_refl _⟩
  · exact ⟨hbyte, Nat.le_refl _⟩
  · exact readAnswer_spec hfit hlt hcommand card

theorem command_mem (d : Data) (card : Card) : inBuf 0 1 ∈ vcaAgentCommandIoctlAccesses d card := by
  have hanswer : inBuf 0 1 ∈ (plxCsmAgentCommand d card).1 := by
    unfold plxCsmAgentCommand
    split_ifs
    iterate 3 exact List.mem_singleton_self _
    exact List.mem_append_left _ List.mem_cons_self
  exact List.mem_append_left _ (List.mem_append_left _ hanswer)

theorem agentCommand_inside (hfit : headerSize + bufSize d.mem ≤ d.totalSize) (hlt : bufSize d.mem < 2 ^ 63)
    (hcommand : headerSize + 1 ≤ d.totalSize) (card : Card) :
    ∀ a ∈ vcaAgentCommandIoctlAccesses d card, a.Inside d.totalSize := by
  obtain ⟨hanswer, hsize⟩ := plxCsmAgentCommand_spec hfit hlt hcommand card
  unfold vcaAgentCommandIoctlAccesses
  generalize plxCsmAgentCommand d card = answer at hanswer hsize ⊢
  have hheader : ∀ a ∈ [(⟨0, 4⟩ : Access), ⟨bufSizeOffset, 8⟩], a.Inside d.totalSize := by
    simp only [headerSize, bufSizeOffset, Access.Inside, List.forall_mem_cons] at *
    refine ⟨?_, ?_, nofun⟩ <;> omega
  intro a ha
  rcases List.mem_append.mp ha with ha | ha
  · rcases List.mem_append.mp ha with ha | ha
    · exact hanswer a ha
    · exact hheader a ha
  · -- the count is compared with the allocation before it is copied
    split_ifs at ha with hout
    · cases ha
    · obtain rfl := List.mem_singleton.mp ha
      simp only [Access.Inside]
      omega

/-! ## The two lengths -/

theorem fits_iff (h : vcaGetIoctlData env maxBufSize inputBufSize = .ok d) :
    d.Fits ↔ headerSize + bufSize env.first < 2 ^ 64 ∧ bufSize env.second ≤ bufSize env.first := by
  have hfirst := sizeT_lt env.first bufSizeOffset
  rw [← bufSize] at hfirst
  by_cases hlt : headerSize + bufSize env.first < 2 ^ 64
  · obtain ⟨htotal, hsize⟩ := bufSize_of_vcaGetIoctlData h hlt
    rw [Data.Fits, htotal, hsize]
    omega
  · -- the allocation does not even hold the header
    have htotal := (ok_of_vcaGetIoctlData h).2.1
    have hshort : d.totalSize < headerSize := by
      simp only [headerSize] at *
      omega
    rw [Data.Fits]
    omega

theorem maxBufSize_lt (c : Caller) : headerSize + c.maxBufSize < 2 ^ 63 := by
  have hmax : c.maxBufSize ≤ vcaMaxEepromBufSize := by
    cases c with
    | updateEeprom passes => exact Nat.le_refl _
    | updateSecondaryEeprom passes => exact Nat.le_refl _
    | agentCommand card => exact show vcaMaxAgentBufSize ≤ vcaMaxEepromBufSize by decide
  simp only [headerSize, vcaMaxEepromBufSize] at *
  omega

/-- The length that an object is returned with fits its allocation exactly if it did not grow between the two fetches,
and then the callers keep to the allocation, but for an agent command without a byte. -/
theorem safe_iff (h : vcaGetIoctlData env maxBufSize inputBufSize = .ok d) (c : Caller) :
    (d.Fits ↔ headerSize + bufSize env.first < 2 ^ 64 ∧ bufSize env.second ≤ bufSize env.first) ∧
      (maxBufSize = c.maxBufSize → inputBufSize = c.inputBufSize →
        (Safe d c ↔ bufSize env.second ≤ bufSize env.first ∧ (c.TakesCommand → bufSize env.first ≠ 0))) := by
  refine ⟨fits_iff h, ?_⟩
  rintro rfl -
  have hmax : bufSize env.first ≤ c.maxBufSize := (ok_of_vcaGetIoctlData h).1
  have hlt := maxBufSize_lt c
  obtain ⟨htotal, hsize⟩ := bufSize_of_vcaGetIoctlData h (by omega)
  rw [Safe, fits_iff h]
  constructor
  · rintro ⟨⟨-, hle⟩, hinside⟩
    refine ⟨hle, ?_⟩
    intro hcommand hzero
    cases c with
    | updateEeprom passes => exact hcommand
    | updateSecondaryEeprom passes => exact hcommand
    | agentCommand card =>
      have hbyte := inside_inBuf.mp (hinside _ (command_mem d card))
      omega
  · rintro ⟨hle, hcommand⟩
    have hfit : headerSize + bufSize d.mem ≤ d.totalSize := by omega
    refine ⟨⟨by omega, hle⟩, ?_⟩
    cases c with
    | updateEeprom passes => exact updateEeprom_inside hfit passes
    | updateSecondaryEeprom passes => exact updateEeprom_inside hfit passes
    | agentCommand card =>
      have hpos := hcommand trivial
      exact agentCommand_inside hfit (by omega) (by omega) card

/-- The user's memory with a length in the header, and the beginning of an EEPROM image in the buffer. -/
def userMemory (length : UInt8) : Memory := fun i ↦
  [0, 0, 0, 0, 0, 0, 0, 0, length, 0, 0, 0, 0, 0, 0, 0, 0x5a, 0, 6, 0].getD i 0

/-- The user makes the buffer longer between the fetches. -/
def grownEnv (first second : UInt8) : Env where
  first := userMemory first
  second := userMemory second
  firstFaults := false
  secondFaults := false
  accessOk := fun _ ↦ true
  kzalloc := fun _ ↦ some fun _ ↦ 0

theorem safe_unchanged : ∃ d, vcaGetIoctlData (grownEnv 14 14) (Caller.updateEeprom 4).maxBufSize
    (Caller.updateEeprom 4).inputBufSize = .ok d ∧ Safe d (.updateEeprom 4) :=
  ⟨_, rfl, ((safe_iff (show vcaGetIoctlData (grownEnv 14 14) _ _ = .ok _ from rfl) (.updateEeprom 4)).2 rfl rfl).mpr
    ⟨Nat.le_refl _, nofun⟩⟩

/-- The buffer has 8 bytes at the first fetch and 14 at the second: the check sum is computed over what lies behind
the allocation. -/
theorem safe_grown : ∃ d, vcaGetIoctlData (grownEnv 8 14) (Caller.updateEeprom 4).maxBufSize
    (Caller.updateEeprom 4).inputBufSize = .ok d ∧ ¬d.Fits ∧
    ∃ a ∈ (Caller.updateEeprom 4).accesses d, ¬a.Inside d.totalSize := by
  refine ⟨_, rfl, ?_, inBuf 6 4, ?_, ?_⟩
  · decide
  · decide
  · decide

end Vcass.Ioctl
