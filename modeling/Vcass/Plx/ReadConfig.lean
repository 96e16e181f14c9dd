import Mathlib.Data.Int.Notation
import Mathlib.Data.Int.Order.Basic
import Vcass.Lib.Words
import Vcass.Plx.ConfigFile

/-!
# Configuration texts for the other machine: reading them

The reader finds address and size of a text in the boot parameters of the other machine, maps the text and
copies it into a buffer. The size has four bytes there, and it is read with `readq`: the four bytes behind it
come in as the upper half. For the answers of the card's agent these are a doorbell, the command and the flag
that the answer is there, for the configuration files the padding of the structure.
-/

namespace Vcass.Plx.ConfigFile

open Overlay
open Function (update)

/-! ## The boot parameters -/

/-- The boot parameters, byte by byte. -/
abbrev BootParams := ℕ → UInt8

/-- Where the address and the size of a text lie in `struct vca_bootparam`. -/
structure Place where
  dmaAddr : ℕ
  size : ℕ
  apart : dmaAddr + 8 ≤ size

def netConfig : Place := ⟨72, 80, by decide⟩

def cardCsaMem : Place := ⟨104, 112, by decide⟩

/-- The bytes behind `card_csa_mem_info`. -/
def h2cCsaMemDb : ℕ := 116

def csaCommand : ℕ := 117

def csaFinished : ℕ := 118

/-- Address and size are written. -/
def publish (params : BootParams) (p : Place) (s : Buffer) : BootParams :=
  overlay (overlay params p.dmaAddr (bytes 8 s.dmaAddr)) p.size (bytes 4 s.size)

/-- `_plx_set_card_csa_mem`. -/
def plxSetCardCsaMem (params : BootParams) (s : Buffer) (c : Call) : ℤ × BootParams × Buffer :=
  let (cnt, s) := plxSetConfigFile s c
  (cnt, overlay (publish params cardCsaMem s) csaFinished (bytes 1 1), s)

/-! ## The reader -/

/-- What the reader meets outside its machine. -/
structure Remote where
  /-- The memory at a DMA address. -/
  mem : ℕ → UInt8
  /-- `plx_ioremap` succeeds. -/
  ioremap : Bool

/-- The lengths that are mapped and copied, the buffer afterwards and the result. -/
structure Result where
  mapped : Option ℕ
  copied : Option ℕ
  outBuf : ℤ → UInt8
  count : ℕ

/-- `strnlen`. -/
def strnlen (buf : ℤ → UInt8) (n : ℕ) : ℕ := ((slice (fun i ↦ buf i) 0 n).takeWhile fun b ↦ b ≠ 0).length

/-- `readq` into a `ssize_t`. -/
def dmaSizeRead (params : BootParams) (p : Place) : ℤ := Int.bmod (word params p.size 8) (2 ^ 64)

/-- `plx_read_dma_mapped_mem`. -/
def plxReadDmaMappedMem (params : BootParams) (p : Place) (remote : Remote) (outBuf : ℤ → UInt8)
    (outBufSize : ℤ) : Result :=
  let size := min (dmaSizeRead params p) (outBufSize - 1)
  if outBufSize = 0 then ⟨none, none, outBuf, 0⟩
  else
    -- the length of the mapping and of the copy is a `size_t`
    let len : ℕ := (size % 2 ^ 64).toNat
    let dmaAddr := word params p.dmaAddr 8
    if remote.ioremap then
      let copied := fun i : ℤ ↦ if 0 ≤ i ∧ i < len then remote.mem (dmaAddr + i.toNat) else outBuf i
      let outBuf := update copied size 0
      ⟨some len, some len, outBuf, strnlen outBuf len⟩
    else ⟨some len, none, outBuf, 0⟩

/-- The published size. -/
def published (params : BootParams) (p : Place) : ℕ := word params p.size 4

/-- What lies behind the size. -/
def behind (params : BootParams) (p : Place) : ℕ := word params (p.size + 4) 4

/-- As many bytes are mapped, and copied, as were published or have room. -/
def Result.Exact (r : Result) (params : BootParams) (p : Place) (ioremap : Bool) (outBufSize : ℕ) : Prop :=
  r.mapped = some (min (published params p) (outBufSize - 1)) ∧
    (ioremap → r.copied = some (min (published params p) (outBufSize - 1)))

/-- Nothing lies behind the size, or it does not matter, since the buffer is shorter than the text. -/
def Clear (params : BootParams) (p : Place) (outBufSize : ℕ) : Prop :=
  behind params p = 0 ∨ behind params p < 2 ^ 31 ∧ outBufSize - 1 ≤ published params p

/-! ## Lengths -/

variable {params : BootParams} {p : Place} {remote : Remote} {outBuf : ℤ → UInt8} {out : ℕ}

theorem word_size (params : BootParams) (p : Place) :
    word params p.size 8 = published params p + 2 ^ 32 * behind params p := by
  rw [show 8 = 4 + 4 from rfl, word_add, show 256 ^ 4 = 2 ^ 32 from rfl, published, behind]

theorem published_lt (params : BootParams) (p : Place) : published params p < 2 ^ 32 := by
  have hlt := word_lt params p.size 4
  rwa [show 256 ^ 4 = 2 ^ 32 from rfl] at hlt

theorem behind_lt (params : BootParams) (p : Place) : behind params p < 2 ^ 32 := by
  have hlt := word_lt params (p.size + 4) 4
  rwa [show 256 ^ 4 = 2 ^ 32 from rfl] at hlt

theorem dmaSizeRead_of_lt (h : behind params p < 2 ^ 31) :
    dmaSizeRead params p = published params p + 2 ^ 32 * behind params p := by
  have hsize := published_lt params p
  unfold dmaSizeRead
  rw [word_size]
  apply Int.bmod_eq_of_le <;> omega

theorem dmaSizeRead_of_ge (h : 2 ^ 31 ≤ behind params p) :
    dmaSizeRead params p = published params p + 2 ^ 32 * behind params p - 2 ^ 64 := by
  have hsize := published_lt params p
  have hbehind := behind_lt params p
  unfold dmaSizeRead
  rw [word_size, Int.bmod_def, if_neg (by omega)]
  omega

/-- The length that the reader computes, against the one that it should be. -/
theorem len_eq_iff (params : BootParams) (p : Place) (hpos : 0 < out) (hlt : out < 2 ^ 63) :
    (min (dmaSizeRead params p) ((out : ℤ) - 1) % 2 ^ 64).toNat = min (published params p) (out - 1) ↔
      Clear params p out := by
  have hsize := published_lt params p
  have hbehind := behind_lt params p
  rw [Clear]
  rcases Nat.lt_or_ge (behind params p) (2 ^ 31) with hh | hh
  · rw [dmaSizeRead_of_lt hh]
    omega
  · -- the size is negative, and its length is more than any buffer has
    rw [dmaSizeRead_of_ge hh]
    omega

theorem exact_iff (params : BootParams) (p : Place) (remote : Remote) (outBuf : ℤ → UInt8) (hpos : 0 < out)
    (hlt : out < 2 ^ 63) :
    (plxReadDmaMappedMem params p remote outBuf out).Exact params p remote.ioremap out ↔ Clear params p out := by
  rw [← len_eq_iff params p hpos hlt]
  unfold plxReadDmaMappedMem Result.Exact
  rw [if_neg (by omega)]
  cases remote.ioremap <;> simp

theorem size_eq_of_clear (hpos : 0 < out) (hclear : Clear params p out) :
    min (dmaSizeRead params p) ((out : ℤ) - 1) = (min (published params p) (out - 1) : ℕ) := by
  have hsize := published_lt params p
  rcases hclear with hzero | ⟨hlow, hle⟩
  · rw [dmaSizeRead_of_lt (by omega), hzero]
    omega
  · rw [dmaSizeRead_of_lt hlow]
    omega

/-! ## Reading back -/

theorem published_publish (params : BootParams) (p : Place) (s : Buffer) :
    published (publish params p s) p = s.size % 2 ^ 32 := by
  rw [published, publish, word_overlay_self, show 256 ^ 4 = 2 ^ 32 from rfl]

theorem dmaAddr_publish (params : BootParams) (p : Place) (s : Buffer) :
    word (publish params p s) p.dmaAddr 8 = s.dmaAddr % 2 ^ 64 := by
  rw [publish, word_overlay_of_disjoint (.inl p.apart), word_overlay_self, show 256 ^ 8 = 2 ^ 64 from rfl]

/-- What the reader should end up with: the text, as far as there is room, and a zero behind it. -/
structure ReadsBack (r : Result) (txt : List UInt8) (room : ℕ) : Prop where
  text : slice (fun i ↦ r.outBuf i) 0 (min txt.length room) = txt.take room
  terminated : r.outBuf (min txt.length room : ℕ) = 0
  /-- Of a text without zeroes the result is the length. -/
  count : 0 ∉ txt → r.count = min txt.length room

theorem strnlen_eq {buf : ℤ → UInt8} {m n : ℕ} (hle : m ≤ n) (hbefore : ∀ i < m, buf i ≠ 0)
    (hend : m < n → buf m = 0) : strnlen buf n = m := by
  obtain ⟨k, rfl⟩ := Nat.exists_eq_add_of_le hle
  have hfirst : ∀ b ∈ slice (fun i : ℕ ↦ buf i) 0 m, decide (b ≠ 0) = true := by
    intro b hb
    obtain ⟨i, hi, rfl⟩ := List.mem_map.mp hb
    simpa using hbefore i (List.mem_range.mp hi)
  rw [strnlen, slice_add, List.takeWhile_append_of_pos hfirst, List.length_append, length_slice, Nat.zero_add]
  cases k with
  | zero => rfl
  | succ k =>
    rw [slice, List.range_succ_eq_map, List.map_cons, List.takeWhile_cons_of_neg]
    · rfl
    · simpa using hend (Nat.lt_add_of_pos_right k.succ_pos)

section Back

variable {s : Buffer} {c : Call} {addr : ℕ}

theorem stored_eq (s : Buffer) (hpages : c.pages = some addr) (hle : c.buf.length ≤ pageSize) :
    (plxSetConfigFile s c).2.size = c.buf.length + 1 ∧
      ∀ i ≤ terminator c.buf, (plxSetConfigFile s c).2.mem ((plxSetConfigFile s c).2.virtAddr + i) =
        if i < terminator c.buf then c.buf.getD i 0 else 0 := by
  unfold plxSetConfigFile
  simp only [hpages]
  constructor
  · rw [Nat.mod_eq_of_lt]
    simp only [pageSize] at hle
    omega
  · intro i hi
    exact fill_text _ _ _ hi

theorem outBuf_eq (hpos : 0 < out) (hclear : Clear params p out) (hmap : remote.ioremap = true)
    (outBuf : ℤ → UInt8) :
    (plxReadDmaMappedMem params p remote outBuf out).outBuf =
      update (fun i : ℤ ↦ if 0 ≤ i ∧ i < (min (published params p) (out - 1) : ℕ) then
        remote.mem (word params p.dmaAddr 8 + i.toNat) else outBuf i) (min (published params p) (out - 1) : ℕ) 0 ∧
    (plxReadDmaMappedMem params p remote outBuf out).count =
      strnlen (plxReadDmaMappedMem params p remote outBuf out).outBuf (min (published params p) (out - 1)) := by
  have hsize := published_lt params p
  have hlen : ((min (published params p) (out - 1) : ℕ) % 2 ^ 64 : ℤ).toNat =
      min (published params p) (out - 1) := by
    omega
  unfold plxReadDmaMappedMem
  simp only [size_eq_of_clear hpos hclear, hlen, hmap, if_true, if_neg (show ¬(out : ℤ) = 0 by omega), and_self]

theorem readsBack_of_clear (hpages : c.pages = some addr) (hle : c.buf.length ≤ pageSize) (hpos : 0 < out)
    (hclear : Clear (publish params p (plxSetConfigFile s c).2) p out) (hmap : remote.ioremap = true)
    (hmem : ∀ i < (plxSetConfigFile s c).2.size, remote.mem ((plxSetConfigFile s c).2.dmaAddr % 2 ^ 64 + i) =
      (plxSetConfigFile s c).2.mem ((plxSetConfigFile s c).2.virtAddr + i)) (outBuf : ℤ → UInt8) :
    ReadsBack (plxReadDmaMappedMem (publish params p (plxSetConfigFile s c).2) p remote outBuf out)
      (text c.buf) (out - 1) := by
  obtain ⟨hsize, hcells⟩ := stored_eq s hpages hle
  obtain ⟨hout, hcount⟩ := outBuf_eq hpos hclear hmap outBuf
  have hterm := terminator_le c.buf
  have hpub : published (publish params p (plxSetConfigFile s c).2) p = c.buf.length + 1 := by
    rw [published_publish, hsize, Nat.mod_eq_of_lt]
    simp only [pageSize] at hle
    omega
  rw [hpub, dmaAddr_publish] at hout
  rw [hpub] at hcount
  generalize plxReadDmaMappedMem (publish params p (plxSetConfigFile s c).2) p remote outBuf out = r at *
  have hlen : (text c.buf).length = terminator c.buf := by
    rw [text, List.length_take]
    omega
  -- what is copied, up to the terminator and as far as there is room
  have hcell : ∀ i ≤ terminator c.buf, i < out - 1 → r.outBuf i =
      if i < terminator c.buf then c.buf.getD i 0 else 0 := by
    intro i hi hroom
    rw [hout, Function.update_of_ne (by omega), if_pos (by omega), Int.toNat_natCast, hmem i (by omega),
      hcells i (by omega)]
  have htext : slice (fun i ↦ r.outBuf i) 0 (min (terminator c.buf) (out - 1)) = (text c.buf).take (out - 1) := by
    apply List.ext_getElem
    · simp [hlen]
      omega
    · intro i hi hi'
      rw [length_slice] at hi
      simp only [slice, List.getElem_map, List.getElem_range, Nat.zero_add]
      rw [hcell i (by omega) (by omega), if_pos (by omega)]
      simp [text, List.getD_eq_getElem?_getD, show i < c.buf.length by omega]
  have hzero : r.outBuf (min (terminator c.buf) (out - 1) : ℕ) = 0 := by
    by_cases hroom : terminator c.buf < out - 1
    · rw [Nat.min_eq_left (Nat.le_of_lt hroom), hcell _ (Nat.le_refl _) hroom,
        if_neg (Nat.lt_irrefl _)]
    · rw [Nat.min_eq_right (by omega), hout, show min (c.buf.length + 1) (out - 1) = out - 1 by omega,
        Function.update_self]
  -- a text without zeroes ends at the first one that is copied
  refine ⟨by rw [hlen, htext], by rw [hlen, hzero], fun hnul ↦ ?_⟩
  rw [hcount, hlen]
  apply strnlen_eq (by omega)
  · intro i hi hnil
    have hi' : i < (text c.buf).length := by omega
    apply hnul
    rw [← hnil, hcell i (by omega) (by omega), if_pos (by omega)]
    have hget : c.buf.getD i 0 = (text c.buf)[i] := by
      simp [text, List.getD_eq_getElem?_getD, show i < c.buf.length by omega]
    rw [hget]
    exact List.getElem_mem hi'
  · exact fun _ ↦ hzero

end Back

/-- **Reading.** The published size is what is mapped and copied, up to the room that there is, if and only if
nothing but zeroes lies behind it, or the buffer is too short for the text and the size is not negative. In
that case a text that the other machine has written is read back. -/
theorem read_exact_iff (params : BootParams) (p : Place) (remote : Remote) (outBuf : ℤ → UInt8) (hpos : 0 < out)
    (hlt : out < 2 ^ 63) :
    ((plxReadDmaMappedMem params p remote outBuf out).Exact params p remote.ioremap out ↔ Clear params p out) ∧
      ∀ old s c, c.pages.isSome → c.buf.length ≤ pageSize → params = publish old p (plxSetConfigFile s c).2 →
        remote.ioremap = true →
        (∀ i < (plxSetConfigFile s c).2.size, remote.mem ((plxSetConfigFile s c).2.dmaAddr % 2 ^ 64 + i) =
          (plxSetConfigFile s c).2.mem ((plxSetConfigFile s c).2.virtAddr + i)) →
        Clear params p out →
        ReadsBack (plxReadDmaMappedMem params p remote outBuf out) (text c.buf) (out - 1) := by
  refine ⟨exact_iff params p remote outBuf hpos hlt, ?_⟩
  intro old s c hpages hle hparams hmap hmem hclear
  obtain ⟨addr, haddr⟩ := Option.isSome_iff_exists.mp hpages
  subst hparams
  exact readsBack_of_clear haddr hle hpos hclear hmap hmem outBuf

/-- A line of a configuration file, and the memory it is put into, which has the same address for DMA. -/
def line : Call := ⟨['i'.toUInt8, 'p'.toUInt8, '\n'.toUInt8], some 0x10000, some 0x10000⟩

def stored : Buffer := (plxSetConfigFile (.init fun _ ↦ 0) line).2

theorem line_read_back : ReadsBack (plxReadDmaMappedMem (publish (fun _ ↦ 0) netConfig stored) netConfig
    ⟨stored.mem, true⟩ (fun _ ↦ 0) (4096 : ℕ)) ['i'.toUInt8, 'p'.toUInt8] 4095 :=
  (read_exact_iff _ netConfig ⟨stored.mem, true⟩ (fun _ ↦ 0) (by decide) (by decide)).2 (fun _ ↦ 0)
    (.init fun _ ↦ 0) line rfl (by decide) rfl rfl (fun _ _ ↦ rfl) (.inl (by decide +kernel))

/-- An answer of the agent that is shorter than the buffer is never read by its size: the flag that it is there
lies behind the size. -/
theorem cardCsaMem_not_clear (params : BootParams) (s : Buffer) (c : Call)
    (hroom : (plxSetConfigFile s c).2.size % 2 ^ 32 < out - 1) :
    ¬Clear (plxSetCardCsaMem params s c).2.1 cardCsaMem out := by
  have hpub : published (plxSetCardCsaMem params s c).2.1 cardCsaMem = (plxSetConfigFile s c).2.size % 2 ^ 32 := by
    rw [← published_publish params cardCsaMem]
    exact word_overlay_of_disjoint (.inl (by decide))
  have hflag : word (plxSetCardCsaMem params s c).2.1 csaFinished 1 = 1 := word_overlay_self ..
  have hbehind : behind (plxSetCardCsaMem params s c).2.1 cardCsaMem ≠ 0 := by
    rw [behind, show cardCsaMem.size + 4 = h2cCsaMemDb from rfl, show 4 = 2 + (1 + 1) from rfl, word_add, word_add,
      show h2cCsaMemDb + 2 = csaFinished from rfl, hflag]
    omega
  rintro (hzero | ⟨-, hle⟩)
  · exact hbehind hzero
  · omega

/-- The boot parameters when the agent has answered to the command for the addresses with the same line. -/
def answer : BootParams :=
  (plxSetCardCsaMem (update (update (fun _ ↦ 0) h2cCsaMemDb 5) csaCommand 2) (.init fun _ ↦ 0) line).2.1

/-- Four bytes are published, and 4095 are mapped. -/
theorem answer_overread : published answer cardCsaMem = 4 ∧
    (plxReadDmaMappedMem answer cardCsaMem ⟨stored.mem, true⟩ (fun _ ↦ 0) (4096 : ℕ)).mapped = some 4095 ∧
    ¬(plxReadDmaMappedMem answer cardCsaMem ⟨stored.mem, true⟩ (fun _ ↦ 0) (4096 : ℕ)).Exact answer cardCsaMem
      true 4096 := by
  refine ⟨by decide +kernel, by decide +kernel, fun hexact ↦ ?_⟩
  have hclear := (exact_iff answer cardCsaMem ⟨stored.mem, true⟩ (fun _ ↦ 0) (by decide) (by decide)).mp hexact
  exact cardCsaMem_not_clear _ _ line (by decide +kernel) hclear

end Vcass.Plx.ConfigFile
