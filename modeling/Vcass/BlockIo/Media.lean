import Mathlib.Data.BitVec
import Vcass.BlockIo.Common

/-!
# Block I/O backend: the media

What stands behind a disk of the backend is a memory or a file. Both compare the end of a request with their size, in
64 bits, before they do anything: `sector << 9` and the sum with the number of bytes wrap around. So a request
whose end is at or beyond `2 ^ 64` is let through if what is left of its end lies within the media.

`vcablk_bcknd_transfer` cuts an entry of the request ring into chunks of at most a page and passes them to the media.
The sector and the number of sectors of the entry come from the frontend as they are.

A file does what the kernel does with it: `nbytesdone`, the result of the kernel, is given in advance.
-/

namespace Vcass.BlockIo

def eacces : ℤ := 13

/-- The types of media that exist (`VCABLK_DISK_TYPE_MEMORY` and `VCABLK_DISK_TYPE_FILE`). -/
inductive DiskType
  | memory
  | file
  deriving DecidableEq, Repr

structure VcablkMedia where
  type : DiskType
  sizeBytes : BitVec 64
  readOnly : Bool
  deriving DecidableEq, Repr

/-- What is done with the content: the range of bytes that is asked for, and how many bytes were moved. -/
structure Access where
  offset : BitVec 64
  nbytes : BitVec 64
  done : ℤ
  deriving DecidableEq, Repr

section Code

variable (media : VcablkMedia) (sector nsect : BitVec 64) (write : Bool) (nbytesdone : ℤ)

def mediaTransferMem : ℤ × Option Access :=
  let offset := sector <<< sectorShift
  let nbytes := nsect <<< sectorShift
  if media.sizeBytes < offset + nbytes then (-eio, none)
  else (0, some ⟨offset, nbytes, nbytes.toNat⟩)

/-- A result of the kernel other than the number of bytes is only printed. -/
def mediaTransferFile : ℤ × Option Access :=
  let offset := sector <<< sectorShift
  let nbytes := nsect <<< sectorShift
  if media.sizeBytes < offset + nbytes then (-eio, none)
  else if write ∧ media.readOnly then (-eacces, none)
  else (0, some ⟨offset, nbytes, nbytesdone⟩)

/-- The call through `media->transfer`: the return code, and the access that was made. -/
def vcablkMediaTransfer : ℤ × Option Access :=
  match media.type with
  | .memory => mediaTransferMem media sector nsect
  | .file => mediaTransferFile media sector nsect write nbytesdone

/-- A call of `vcablk_media_transfer`. -/
structure MediaCall where
  sector : BitVec 64
  nsect : BitVec 64
  deriving DecidableEq, Repr

end Code

/-! ## The chunks of an entry -/

/-- `buffer_size >> SECTOR_SHIFT`. -/
def bufferSectors : BitVec 64 := BitVec.ofNat 64 (pageSize >>> sectorShift)

section Chunks

variable (media : VcablkMedia) (write : Bool) (nbytesdone : ℕ → ℤ) (submit : ℕ → Bool)

/-- The `while (sectors_num)` loop of `vcablk_bcknd_transfer`: the calls for an entry. A read is made before the DMA of
its chunk and a write after it, and `submit` tells which of the DMA submissions succeed. -/
def transferCalls : (fuel chunk : ℕ) → (sectorsNum sector : BitVec 64) → List MediaCall
  | 0, _, _, _ => []
  | fuel + 1, chunk, sectorsNum, sector =>
    if sectorsNum = 0 then [] else
      let nsec := if sectorsNum < bufferSectors then sectorsNum else bufferSectors
      if write then
        if submit chunk then
          ⟨sector, nsec⟩ :: transferCalls fuel (chunk + 1) (sectorsNum - nsec) (sector + nsec)
        else []
      else
        ⟨sector, nsec⟩ ::
          if (vcablkMediaTransfer media sector nsec false (nbytesdone chunk)).1 = 0 ∧ submit chunk then
            transferCalls fuel (chunk + 1) (sectorsNum - nsec) (sector + nsec)
          else []

end Chunks

/-! ## Confinement -/

/-- The call is rejected with an error, or touches exactly the bytes of its sectors, which are in the media. -/
def Confined (media : VcablkMedia) (call : MediaCall) (r : ℤ × Option Access) : Prop :=
  match r.2 with
  | none => r.1 ≠ 0
  | some a => a.offset.toNat = 512 * call.sector.toNat ∧
      a.offset.toNat + a.nbytes.toNat = 512 * (call.sector.toNat + call.nsect.toNat) ∧
      512 * (call.sector.toNat + call.nsect.toNat) ≤ media.sizeBytes.toNat

variable {media : VcablkMedia} {write : Bool} {nbytesdone : ℕ → ℤ} {submit : ℕ → Bool} {fuel chunk : ℕ}
  {sectorsNum sector : BitVec 64} {call : MediaCall} {done : ℤ}

/-- What a call does: the comparison that both types of media make, and the one that only files make. -/
theorem mediaTransfer_eq (sector nsect : BitVec 64) : vcablkMediaTransfer media sector nsect write done =
    if media.sizeBytes < sector <<< sectorShift + nsect <<< sectorShift then (-eio, none)
    else if media.type = .file ∧ write ∧ media.readOnly then (-eacces, none)
    else (0, some ⟨sector <<< sectorShift, nsect <<< sectorShift,
      if media.type = .file then done else (nsect <<< sectorShift).toNat⟩) := by
  rw [vcablkMediaTransfer]
  cases htype : media.type with
  | memory => simp [mediaTransferMem]
  | file => simp [mediaTransferFile]

theorem toNat_shift (x : BitVec 64) : (x <<< sectorShift).toNat = 512 * x.toNat % 2 ^ 64 := by
  rw [BitVec.toNat_shiftLeft, Nat.shiftLeft_eq, sectorShift, Nat.mul_comm]

/-- A chunk of at most a page is confined unless its end wraps around into the media. -/
theorem confined_iff (hpos : 0 < call.nsect.toNat) (hle : call.nsect.toNat ≤ 8) :
    Confined media call (vcablkMediaTransfer media call.sector call.nsect write done) ↔
      call.sector.toNat + call.nsect.toNat < 2 ^ 55 ∨
      media.sizeBytes.toNat < 512 * (call.sector.toNat + call.nsect.toNat) % 2 ^ 64 ∨
      media.type = .file ∧ write ∧ media.readOnly := by
  have hoffset := toNat_shift call.sector
  have hbytes := toNat_shift call.nsect
  have hend : (call.sector <<< sectorShift + call.nsect <<< sectorShift).toNat =
      512 * (call.sector.toNat + call.nsect.toNat) % 2 ^ 64 := by
    rw [BitVec.toNat_add, hoffset, hbytes, ← Nat.add_mod, Nat.mul_add]
  have hsize := media.sizeBytes.isLt
  have hsector := call.sector.isLt
  have hlt : media.sizeBytes < call.sector <<< sectorShift + call.nsect <<< sectorShift ↔
      media.sizeBytes.toNat < 512 * (call.sector.toNat + call.nsect.toNat) % 2 ^ 64 := by
    rw [BitVec.lt_def, hend]
  rw [mediaTransfer_eq]
  generalize (if media.type = .file then done else _) = moved
  split_ifs with hbeyond hrefused
  · exact iff_of_true (Int.neg_ne_zero.mpr (by decide)) (Or.inr (Or.inl (hlt.mp hbeyond)))
  · exact iff_of_true (Int.neg_ne_zero.mpr (by decide)) (Or.inr (Or.inr hrefused))
  · rw [hlt] at hbeyond
    simp only [Confined]
    rw [hoffset, hbytes]
    constructor
    · rintro ⟨hstart, -, hfits⟩
      left
      omega
    · rintro (hlow | hbeyond' | hrefused')
      · rw [Nat.mod_eq_of_lt (by omega)] at hbeyond
        exact ⟨by omega, by omega, by omega⟩
      · exact absurd hbeyond' hbeyond
      · exact absurd hrefused' hrefused

/-- The calls of an entry: chunk after chunk, each of at most a page. -/
theorem transferCalls_mem (hcall : call ∈ transferCalls media write nbytesdone submit fuel chunk sectorsNum sector) :
    ∃ k, 8 * k < sectorsNum.toNat ∧ call.sector = sector + BitVec.ofNat 64 (8 * k) ∧
      call.nsect.toNat = min 8 (sectorsNum.toNat - 8 * k) := by
  induction fuel generalizing chunk sectorsNum sector with
  | zero => exact absurd hcall List.not_mem_nil
  | succ fuel ih =>
    have hnum := sectorsNum.isLt
    have hbuffer : bufferSectors.toNat = 8 := rfl
    rw [transferCalls] at hcall
    by_cases hzero : sectorsNum = 0
    · rw [if_pos hzero] at hcall
      exact absurd hcall List.not_mem_nil
    rw [if_neg hzero] at hcall
    have hpos : sectorsNum.toNat ≠ 0 := fun h ↦ hzero (BitVec.eq_of_toNat_eq h)
    have hnsec : (if sectorsNum < bufferSectors then sectorsNum else bufferSectors).toNat = min 8 sectorsNum.toNat := by
      split_ifs with hlt
      · rw [BitVec.lt_def, hbuffer] at hlt
        omega
      · rw [BitVec.lt_def, hbuffer] at hlt
        omega
    generalize (if sectorsNum < bufferSectors then sectorsNum else bufferSectors) = nsec at hcall hnsec
    have hfirst : call = ⟨sector, nsec⟩ → ∃ k, 8 * k < sectorsNum.toNat ∧
        call.sector = sector + BitVec.ofNat 64 (8 * k) ∧ call.nsect.toNat = min 8 (sectorsNum.toNat - 8 * k) := by
      rintro rfl
      exact ⟨0, by omega, (BitVec.add_zero sector).symm, hnsec⟩
    have hrest : call ∈ transferCalls media write nbytesdone submit fuel (chunk + 1) (sectorsNum - nsec) (sector + nsec) →
        ∃ k, 8 * k < sectorsNum.toNat ∧ call.sector = sector + BitVec.ofNat 64 (8 * k) ∧
          call.nsect.toNat = min 8 (sectorsNum.toNat - 8 * k) := by
      intro hmem
      obtain ⟨k, hk, hsector, hnsect⟩ := ih hmem
      have hleft : (sectorsNum - nsec).toNat = sectorsNum.toNat - nsec.toNat :=
        BitVec.toNat_sub_of_le (by rw [BitVec.le_def]; omega)
      rw [hleft] at hk hnsect
      have height : nsec = BitVec.ofNat 64 8 := BitVec.eq_of_toNat_eq (by rw [hnsec]; change _ = 8; omega)
      refine ⟨k + 1, by omega, ?_, by omega⟩
      rw [hsector, height, BitVec.add_assoc, ← BitVec.ofNat_add, Nat.mul_add, Nat.add_comm 8]
    cases write with
    | true =>
      rw [if_pos rfl] at hcall
      split at hcall
      · rcases List.mem_cons.mp hcall with h | h
        · exact hfirst h
        · exact hrest h
      · exact absurd hcall List.not_mem_nil
    | false =>
      rw [if_neg Bool.false_ne_true] at hcall
      rcases List.mem_cons.mp hcall with h | h
      · exact hfirst h
      · split at h
        · exact hrest h
        · exact absurd h List.not_mem_nil

/-- **Which chunks are confined.** Of the calls for an entry, whatever its sector and its number of sectors, the `k`-th is
rejected or touches exactly its own bytes in the media, if and only if its end in bytes fits 64 bits, or lies
beyond the media even when it is cut to 64 bits, or the media is a file that refuses it as a write. -/
theorem chunk_confined_iff (hcall : call ∈ transferCalls media write nbytesdone submit fuel chunk sectorsNum sector) :
    (∃ k, 8 * k < sectorsNum.toNat ∧ call.sector = sector + BitVec.ofNat 64 (8 * k) ∧
      call.nsect.toNat = min 8 (sectorsNum.toNat - 8 * k)) ∧
    (Confined media call (vcablkMediaTransfer media call.sector call.nsect write done) ↔
      call.sector.toNat + call.nsect.toNat < 2 ^ 55 ∨
      media.sizeBytes.toNat < 512 * (call.sector.toNat + call.nsect.toNat) % 2 ^ 64 ∨
      media.type = .file ∧ write ∧ media.readOnly) := by
  obtain ⟨k, hk, hsector, hnsect⟩ := transferCalls_mem hcall
  exact ⟨⟨k, hk, hsector, hnsect⟩, confined_iff (by omega) (by omega)⟩

/-- A memory of a megabyte. -/
def smallMemory : VcablkMedia := ⟨.memory, 1048576, false⟩

theorem first_sectors_confined : Confined smallMemory ⟨3, 8⟩ (vcablkMediaTransfer smallMemory 3 8 true 0) := by
  have hcall : ⟨3, 8⟩ ∈ transferCalls smallMemory true (fun _ ↦ 0) (fun _ ↦ true) 1 0 8 3 := by decide
  exact (chunk_confined_iff hcall).2.mpr (Or.inl (by decide))

/-- Eight sectors from sector `2 ^ 55 - 8` on end at 0, and are written in front of the memory. -/
theorem wrapped_chunk_not_confined :
    ⟨2 ^ 55 - 8, 8⟩ ∈ transferCalls smallMemory true (fun _ ↦ 0) (fun _ ↦ true) 1 0 8 (2 ^ 55 - 8) ∧
      vcablkMediaTransfer smallMemory (2 ^ 55 - 8) 8 true 0 = (0, some ⟨BitVec.ofNat 64 (2 ^ 64 - 4096), 4096, 4096⟩) ∧
      ¬ Confined smallMemory ⟨2 ^ 55 - 8, 8⟩ (vcablkMediaTransfer smallMemory (2 ^ 55 - 8) 8 true 0) := by
  have hresult : vcablkMediaTransfer smallMemory (2 ^ 55 - 8) 8 true 0 =
      (0, some ⟨BitVec.ofNat 64 (2 ^ 64 - 4096), 4096, 4096⟩) := by decide
  refine ⟨by decide, hresult, ?_⟩
  rw [hresult]
  rintro ⟨-, -, hfits⟩
  exact absurd hfits (by decide)

end Vcass.BlockIo
