import Vcass.Lib.Words

/-!
# EEPROM update

`update-EEPROM` reads a container file, finds the one entry of its table that is for the card, and passes the two
images that the entry names to the driver. The file is trusted with nothing: it has to begin with a GUID and to end
with a checksum, and where its offsets and sizes lead out of it, the stream raises an exception. All of this happens
in a block that catches every exception.

What comes after the block reads the checksum at the end of both images, and raises an exception for an image that
is too short to have one. Nothing catches this one.
-/

namespace Vcass.Vcactl.EepromUpdate

open Overlay (bytes)

/-! ## The checksum -/

def crcBit (crc : ℕ) : ℕ := if crc % 2 = 1 then crc / 2 ^^^ 0xEDB88320 else crc / 2

def crcByte (crc : ℕ) (b : UInt8) : ℕ := crcBit^[8] (crc ^^^ b.toNat)

/-- `boost::crc_32_type`, the reflected CRC-32. -/
def crc32 (data : List UInt8) : ℕ := data.foldl crcByte 0xFFFFFFFF ^^^ 0xFFFFFFFF

example : crc32 [0x31, 0x32, 0x33, 0x34, 0x35, 0x36, 0x37, 0x38, 0x39] = 0xCBF43926 := by decide +kernel

/-- The number in the bytes, the lowest one first. -/
def uint (bs : List UInt8) : ℕ := Nat.ofDigits 256 (bs.map UInt8.toNat)

/-! ## The stream -/

inductive Thrown
  /-- `std::ifstream::failure`. -/
  | failure
  | runtimeError
  | badCast
  deriving DecidableEq, Repr

/-- An `ifstream` that raises an exception when it fails. -/
structure Stream where
  data : List UInt8
  isOpen : Bool
  pos : ℕ
  deriving DecidableEq, Repr

abbrev Reader (α : Type) := StateT Stream (Except Thrown) α

def raise {α : Type} (e : Thrown) : Reader α := fun _ ↦ .error e

def Reader.isOpen : Reader Bool := fun f ↦ .ok (f.isOpen, f)

/-- `seekg(off, beg)`: a position after the end is allowed. -/
def seekBeg (off : ℕ) : Reader Unit := fun f ↦ if f.isOpen then .ok ((), { f with pos := off }) else .error .failure

/-- `seekg(-back, end)`. -/
def seekEnd (back : ℕ) : Reader Unit := fun f ↦
  if f.isOpen ∧ back ≤ f.data.length then .ok ((), { f with pos := f.data.length - back }) else .error .failure

def tell : Reader ℕ := fun f ↦ .ok (if f.isOpen then f.pos else 2 ^ 64 - 1, f)

def read (n : ℕ) : Reader (List UInt8) := fun f ↦
  if n = 0 ∨ f.isOpen ∧ f.pos + n ≤ f.data.length then
    .ok ((f.data.drop f.pos).take n, { f with pos := f.pos + n })
  else .error .failure

def close : Reader Unit := fun f ↦ if f.isOpen then .ok ((), { f with isOpen := false }) else .error .failure

/-! ## The container file -/

def maxEepromEntries : ℕ := 1024

def validGuid : List UInt8 :=
  [0xa9, 0x24, 0xc9, 0xb6, 0xb1, 0xd0, 0x4c, 0x4a, 0x82, 0x15, 0x31, 0x45, 0x39, 0x49, 0x5e, 0xd4]

/-- `sizeof(GUID)`. -/
def guidSize : ℕ := 16

/-- `sizeof(EepromFileHeader)`. -/
def headerSize : ℕ := 12

/-- `sizeof(EepromEntry)`. -/
def entrySize : ℕ := 24

def minFileSize : ℕ := headerSize + guidSize

structure EepromEntry where
  cardGen : ℕ
  fabBitmap : ℕ
  firstEepromOffset : ℕ
  firstEepromSize : ℕ
  secondEepromOffset : ℕ
  secondEepromSize : ℕ
  deriving DecidableEq, Repr

/-- The 32 bits at an offset of a list of bytes. -/
def field (bs : List UInt8) (off : ℕ) : ℕ := uint ((bs.drop off).take 4)

/-- The layout of an entry. -/
def EepromEntry.ofBytes (bs : List UInt8) : EepromEntry :=
  ⟨field bs 0, field bs 4, field bs 8, field bs 12, field bs 16, field bs 20⟩

/-- The entries of a table. -/
def entriesOf (number : ℕ) (table : List UInt8) : List EepromEntry :=
  (List.range number).map fun i ↦ .ofBytes (table.drop (entrySize * i))

def validateFileLen : Reader Bool := do
  seekEnd 0
  let fileSize ← tell
  -- `unsigned`
  return minFileSize ≤ fileSize % 2 ^ 32

def validateGuid : Reader Bool := do
  seekBeg 0
  let fileGuid ← read guidSize
  return fileGuid = validGuid

def getFileCrc : Reader ℕ := do
  seekEnd 4
  let crc ← read 4
  return uint crc

def checkCrc : Reader Bool := do
  let fileCrc ← getFileCrc
  seekEnd 4
  let fSize ← tell
  seekBeg 0
  -- `unsigned`
  let fileData ← read (fSize % 2 ^ 32)
  return fileCrc = crc32 fileData

def throwUnless (ok : Bool) : Reader Unit := if ok then pure () else raise .runtimeError

def closeUnless (ok : Bool) : Reader Unit := if ok then pure () else close

/-- The header and the table. -/
def readTable : Reader (List EepromEntry) := do
  seekBeg guidSize
  let header ← read headerSize
  let eepromEntriesNumber := field header 8
  throwUnless (eepromEntriesNumber ≤ maxEepromEntries)
  let table ← read (eepromEntriesNumber * entrySize)
  return entriesOf eepromEntriesNumber table

/-- The constructor of `EepromFile`, once the file has been opened: the table. -/
def eepromFile : Reader (List EepromEntry) := do
  throwUnless (← validateFileLen)
  -- the stream is closed, and the constructor goes on
  closeUnless (← validateGuid)
  closeUnless (← checkCrc)
  readTable

/-- The images, the first and the second. -/
def getBinaryEeproms (entry : EepromEntry) : Reader (List UInt8 × List UInt8) := do
  seekBeg entry.firstEepromOffset
  let firstEeprom ← read entry.firstEepromSize
  seekBeg entry.secondEepromOffset
  let secondEeprom ← read entry.secondEepromSize
  return (firstEeprom, secondEeprom)

/-! ## The command -/

/-- How an ioctl ends, with what precedes it in its function. -/
inductive IoctlOutcome
  | noMemory
  | failed
  | success
  deriving DecidableEq, Repr

structure UpdateEnv where
  isRoot : Bool
  cardStateOk : Bool
  force : Bool
  needsCardTypeCheck : Bool
  cardType : ℕ
  /-- The content of the file, if it can be opened. -/
  file : Option (List UInt8)
  cardFd : Bool
  first : IoctlOutcome
  extdCardFd : Bool
  second : IoctlOutcome

inductive Ioctl
  | updateEeprom (buf : List UInt8)
  | updateSecondaryEeprom (buf : List UInt8)
  deriving DecidableEq, Repr

/-- The ioctls of the command, and what it returns; nothing if an exception escapes from it. -/
structure Outcome where
  ioctls : List Ioctl
  result : Option Bool
  deriving DecidableEq, Repr

/-- `VCA_FPGA | VCA_VCAA | VCA_VCGA`. -/
def singleEepromCards : ℕ := 0x10 ||| 0x20 ||| 0x40

variable (env : UpdateEnv)

def UpdateEnv.cardHasTwoEeproms : Bool := env.cardType &&& singleEepromCards = 0

/-- `is_eeprom_compatible` or `accept_any_eeprom`. -/
def UpdateEnv.matching (entry : EepromEntry) : Bool := !env.needsCardTypeCheck || entry.cardGen = env.cardType

/-- `known_eeproms`. -/
def knownEeproms : List (ℕ × ℕ) :=
  [(0x6796f2a7, 0x0bfca75b), (0xA172AB39, 0x1EF8459C), (0xa407d63e, 0x78d7d1f2), (0xD3D967CB, 0xCEAEE1C3),
    (0x5D7DF7F5, 0xCEAEE1C3), (0x17F654AD, 0xCEAEE1C3), (0xB0E8290F, 0x10499C8D), (0xB0E8290F, 0x10499C8D),
    (0xFFC3AFE9, 0x10B4B784), (0x70747760, 0xE3CD6EA0), (0x195555DB, 0x2A40E70B), (0xC5A6EDD0, 0x29370C31),
    (0xD726E8AF, 0x996EC62B), (0x0BD550A4, 0x9A192D11), (0x47B81C7F, 0x62117204), (0xad29c0ce, 0), (0xBA66347B, 0),
    (0xbc5a48da, 0), (0x687d552e, 0), (0x6cc483ef, 0), (0xc247bc29, 0), (0xB60C70FD, 0), (0x89e39209, 0),
    (0x393b7801, 0), (0x4bb11a52, 0), (0x3c5edc5e, 0), (0x0bac71ee, 0), (0x603abe83, 0)]

def checkIfEepromsCrcIsAllowed (candidate : ℕ × ℕ) (cardHasTwoEeproms : Bool) : Bool :=
  knownEeproms.any fun known ↦ candidate.1 = known.1 && (!cardHasTwoEeproms || candidate.2 = known.2)

/-- The last four bytes of an image. -/
def readEepromCrc (eeprom : List UInt8) : Except Thrown ℕ :=
  if eeprom.length < 4 then .error .badCast else .ok (uint (eeprom.drop (eeprom.length - 4)))

/-- The constructor of `EepromFile` opens the file. -/
def openFile : Except Thrown Stream :=
  match env.file with
  | none => .error .failure
  | some data => .ok ⟨data, true, 0⟩

/-- What is done in the `try` block with the file that was opened. -/
def tryBlock : Reader (Option (EepromEntry × List UInt8 × List UInt8)) := do
  let entries ← eepromFile
  unless ← Reader.isOpen do
    return none
  match entries.filter env.matching with
  | [validEntry] =>
    let eepromBin ← getBinaryEeproms validEntry
    return some (validEntry, eepromBin)
  | _ => return none

/-- The `try` block with its handlers, all of which return from the command. -/
def chosen : Option (EepromEntry × List UInt8 × List UInt8) :=
  match openFile env >>= (tryBlock env).run with
  | .ok (result, _) => result
  | .error _ => none

/-- The second EEPROM, after the ioctl for the first one. -/
def updateSecond (before : List Ioctl) (buf : List UInt8) : Outcome :=
  if env.cardHasTwoEeproms then
    if env.extdCardFd then
      match env.second with
      | .noMemory => ⟨before, some false⟩
      | .failed => ⟨before ++ [.updateSecondaryEeprom buf], some false⟩
      | .success => ⟨before ++ [.updateSecondaryEeprom buf], some true⟩
    else ⟨before, some false⟩
  else ⟨before, some true⟩

/-- The ioctls; `memcpy` copies as many bytes as the entry says. -/
def updateImages (entry : EepromEntry) (eepromBin : List UInt8 × List UInt8) : Outcome :=
  if env.cardFd then
    let buf := eepromBin.1.take entry.firstEepromSize
    match env.first with
    | .noMemory => ⟨[], some false⟩
    | .failed => ⟨[.updateEeprom buf], some false⟩
    | .success => updateSecond env [.updateEeprom buf] (eepromBin.2.take entry.secondEepromSize)
  else ⟨[], some false⟩

/-- What follows the `try` block. -/
def updateChosen (entry : EepromEntry) (eepromBin : List UInt8 × List UInt8) : Outcome :=
  match readEepromCrc eepromBin.1, readEepromCrc eepromBin.2 with
  | .ok first, .ok second =>
    if checkIfEepromsCrcIsAllowed (first, second) env.cardHasTwoEeproms || env.force then
      updateImages env entry eepromBin
    else ⟨[], some false⟩
  | _, _ => ⟨[], none⟩

def updateEeprom : Outcome :=
  if !env.isRoot then ⟨[], some false⟩
  else if !env.cardStateOk && !env.force then ⟨[], some false⟩
  else
    match chosen env with
    | none => ⟨[], some false⟩
    | some (entry, eepromBin) => updateChosen env entry eepromBin

/-! ## The property -/

/-- The number of entries. -/
def entriesNumber (file : List UInt8) : ℕ := field file (guidSize + 8)

/-- The entry table. -/
def tableOf (file : List UInt8) : List EepromEntry :=
  entriesOf (entriesNumber file) ((file.drop minFileSize).take (entriesNumber file * entrySize))

/-- The last four bytes are the checksum of the first `n` bytes. -/
def ChecksumOf (file : List UInt8) (n : ℕ) : Prop := uint (file.drop (file.length - 4)) = crc32 (file.take n)

instance (file : List UInt8) (n : ℕ) : Decidable (ChecksumOf file n) := inferInstanceAs (Decidable (_ = _))

/-- The file begins with the GUID, it has a table, and the entry is the only one in it that matches. -/
structure Tabled (file : List UInt8) (matching : EepromEntry → Bool) (entry : EepromEntry) : Prop where
  guid : file.take guidSize = validGuid
  entries_le : entriesNumber file ≤ maxEepromEntries
  table_le : minFileSize + entriesNumber file * entrySize ≤ file.length
  filter_eq : (tableOf file).filter matching = [entry]

/-- The file also ends with the checksum of all that precedes it. -/
structure Intact (file : List UInt8) (matching : EepromEntry → Bool) (entry : EepromEntry) : Prop
    extends Tabled file matching entry where
  length_le : 4 ≤ file.length
  crc : ChecksumOf file (file.length - 4)

/-- The range of the file lies in it. -/
def InFile (file : List UInt8) (off size : ℕ) : Prop := size = 0 ∨ off + size ≤ file.length

def range (file : List UInt8) (off size : ℕ) : List UInt8 := (file.drop off).take size

/-- The ioctls pass what the entry names: the first image, and perhaps the second one on a card with two EEPROMs. -/
def Passes (file : List UInt8) (entry : EepromEntry) (ioctls : List Ioctl) : Prop :=
  InFile file entry.firstEepromOffset entry.firstEepromSize ∧
    InFile file entry.secondEepromOffset entry.secondEepromSize ∧
    ∃ more, ioctls = .updateEeprom (range file entry.firstEepromOffset entry.firstEepromSize) :: more ∧
      (more = [] ∨ env.cardHasTwoEeproms = true ∧
        more = [.updateSecondaryEeprom (range file entry.secondEepromOffset entry.secondEepromSize)])

/-- A file is either refused, and nothing else happens, or it is intact, and the card gets what it names. -/
def Right : Prop :=
  ((updateEeprom env).result = some false ∧ (updateEeprom env).ioctls = []) ∨
    ∃ file entry, env.file = some file ∧ Intact file env.matching entry ∧ (updateEeprom env).result ≠ none ∧
      Passes env file entry (updateEeprom env).ioctls

/-! ## When it holds -/

/-- What the `try` block asks of the file. Its length is taken modulo `2 ^ 32`. -/
structure Accepted (file : List UInt8) (matching : EepromEntry → Bool) (entry : EepromEntry) : Prop
    extends Tabled file matching entry where
  length_le : minFileSize ≤ file.length % 2 ^ 32
  crc : ChecksumOf file (file.length % 2 ^ 32 - 4)
  first_inFile : InFile file entry.firstEepromOffset entry.firstEepromSize
  second_inFile : InFile file entry.secondEepromOffset entry.secondEepromSize

/-- The images of the entry have checksums that are known, or it does not matter. -/
def Allowed (file : List UInt8) (entry : EepromEntry) : Prop :=
  (checkIfEepromsCrcIsAllowed (field file (entry.firstEepromOffset + entry.firstEepromSize - 4),
    field file (entry.secondEepromOffset + entry.secondEepromSize - 4)) env.cardHasTwoEeproms || env.force) = true

instance (file : List UInt8) (entry : EepromEntry) : Decidable (Allowed env file entry) :=
  inferInstanceAs (Decidable (_ = true))

/-- The command gets to the file, and the file is accepted. -/
def Reaches (file : List UInt8) (entry : EepromEntry) : Prop :=
  env.isRoot = true ∧ (env.cardStateOk || env.force) = true ∧ env.file = some file ∧
    Accepted file env.matching entry

/-- Both images of a file that is accepted have a checksum of their own, and if one of them can be passed to the
driver, the checksum of the file is that of all its bytes; only files of `2 ^ 32` bytes and more can fail it. -/
def Sound : Prop :=
  ∀ file entry, Reaches env file entry →
    4 ≤ entry.firstEepromSize ∧ 4 ≤ entry.secondEepromSize ∧
      (Allowed env file entry → env.cardFd = true → env.first ≠ .noMemory → ChecksumOf file (file.length - 4))

/-! ## The stream -/

variable {env} {file : List UInt8} {entry : EepromEntry} {images : List UInt8 × List UInt8} {pos off size : ℕ}
variable {s : Stream} {entries : List EepromEntry}

theorem run_bind {α β : Type} (m : Reader α) (f : α → Reader β) :
    (m >>= f) s = (m s).bind fun r ↦ f r.1 r.2 := rfl

theorem run_bind_ok {α β : Type} {m : Reader α} {f : α → Reader β} {a : α} {s' : Stream} (h : m s = .ok (a, s')) :
    (m >>= f) s = f a s' := by
  rw [run_bind, h]
  rfl

theorem run_bind_error {α β : Type} {m : Reader α} {f : α → Reader β} {e : Thrown} (h : m s = .error e) :
    (m >>= f) s = .error e := by
  rw [run_bind, h]
  rfl

theorem seekBeg_open : seekBeg off ⟨file, true, pos⟩ = .ok ((), ⟨file, true, off⟩) := rfl

theorem seekBeg_closed : seekBeg off ⟨file, false, pos⟩ = .error .failure := rfl

theorem seekEnd_open (h : off ≤ file.length) :
    seekEnd off ⟨file, true, pos⟩ = .ok ((), ⟨file, true, file.length - off⟩) := if_pos ⟨rfl, h⟩

theorem seekEnd_closed : seekEnd off ⟨file, false, pos⟩ = .error .failure := if_neg fun h ↦ Bool.false_ne_true h.1

theorem read_open (h : InFile file pos size) :
    read size ⟨file, true, pos⟩ = .ok (range file pos size, ⟨file, true, pos + size⟩) :=
  if_pos (h.imp_right fun h ↦ ⟨rfl, h⟩)

theorem read_outside (h : ¬ InFile file pos size) : read size ⟨file, true, pos⟩ = .error .failure :=
  if_neg fun h' ↦ h (h'.imp_right And.right)

theorem throwUnless_true : throwUnless true s = .ok ((), s) := rfl

theorem throwUnless_false : throwUnless false s = .error .runtimeError := rfl

theorem closeUnless_true : closeUnless true s = .ok ((), s) := rfl

theorem closeUnless_false : closeUnless false ⟨file, true, pos⟩ = .ok ((), ⟨file, false, pos⟩) := rfl

/-! ## The container file -/

theorem validateFileLen_open :
    validateFileLen ⟨file, true, pos⟩ =
      .ok (decide (minFileSize ≤ file.length % 2 ^ 32), ⟨file, true, file.length⟩) := by
  rw [validateFileLen, run_bind_ok (seekEnd_open (Nat.zero_le _))]
  rfl

theorem validateGuid_open (h : guidSize ≤ file.length) :
    validateGuid ⟨file, true, pos⟩ = .ok (decide (file.take guidSize = validGuid), ⟨file, true, guidSize⟩) := by
  have hin : InFile file 0 guidSize := Or.inr (by rwa [Nat.zero_add])
  rw [validateGuid, run_bind_ok seekBeg_open, run_bind_ok (read_open hin)]
  rfl

theorem checkCrc_closed : checkCrc ⟨file, false, pos⟩ = .error .failure := by
  rw [checkCrc, getFileCrc]
  exact run_bind_error (run_bind_error seekEnd_closed)

theorem checkCrc_open (h : minFileSize ≤ file.length % 2 ^ 32) :
    ∃ pos', checkCrc ⟨file, true, pos⟩ =
      .ok (decide (ChecksumOf file (file.length % 2 ^ 32 - 4)), ⟨file, true, pos'⟩) := by
  have hmin : minFileSize = 28 := rfl
  have hlen : 4 ≤ file.length := by omega
  have hmod : (file.length - 4) % 2 ^ 32 = file.length % 2 ^ 32 - 4 := by omega
  have hlast : InFile file (file.length - 4) 4 := Or.inr (by omega)
  have hdata : InFile file 0 ((file.length - 4) % 2 ^ 32) := Or.inr (by omega)
  have hcrc : getFileCrc ⟨file, true, pos⟩ =
      .ok (uint (file.drop (file.length - 4)), ⟨file, true, file.length - 4 + 4⟩) := by
    rw [getFileCrc, run_bind_ok (seekEnd_open hlen), run_bind_ok (read_open hlast), range,
      List.take_of_length_le (by rw [List.length_drop]; omega)]
    rfl
  have htell : tell ⟨file, true, file.length - 4⟩ = .ok (file.length - 4, ⟨file, true, file.length - 4⟩) := rfl
  rw [checkCrc, run_bind_ok hcrc, run_bind_ok (seekEnd_open hlen), run_bind_ok htell, run_bind_ok seekBeg_open,
    run_bind_ok (read_open hdata), hmod]
  exact ⟨_, rfl⟩

theorem readTable_open_iff (hlen : minFileSize ≤ file.length) :
    readTable ⟨file, true, pos⟩ = .ok (entries, s) ↔
      entriesNumber file ≤ maxEepromEntries ∧ minFileSize + entriesNumber file * entrySize ≤ file.length ∧
        entries = tableOf file ∧ s = ⟨file, true, minFileSize + entriesNumber file * entrySize⟩ := by
  have hmin : minFileSize = guidSize + headerSize := rfl
  have hheader : InFile file guidSize headerSize := Or.inr (hmin ▸ hlen)
  have hnumber : field (range file guidSize headerSize) 8 = entriesNumber file := by
    rw [field, range, List.drop_take, List.drop_drop, List.take_take]
    rfl
  rw [readTable, run_bind_ok seekBeg_open, run_bind_ok (read_open hheader), hnumber, ← hmin]
  by_cases hle : entriesNumber file ≤ maxEepromEntries
  · rw [decide_eq_true hle, run_bind_ok throwUnless_true]
    by_cases htable : InFile file minFileSize (entriesNumber file * entrySize)
    · have hin : minFileSize + entriesNumber file * entrySize ≤ file.length := by
        rcases htable with h | h
        · rwa [h]
        · exact h
      rw [run_bind_ok (read_open htable)]
      constructor
      · intro h
        cases h
        exact ⟨hle, hin, rfl, rfl⟩
      · rintro ⟨-, -, rfl, rfl⟩
        rfl
    · rw [run_bind_error (read_outside htable)]
      exact ⟨fun h ↦ absurd h (by simp), fun h ↦ absurd (Or.inr h.2.1) htable⟩
  · rw [decide_eq_false hle, run_bind_error throwUnless_false]
    exact ⟨fun h ↦ absurd h (by simp), fun h ↦ absurd h.1 hle⟩

/-- Where a stream has been closed, the next thing that is done to it fails. -/
theorem eepromFile_ok_iff :
    eepromFile ⟨file, true, pos⟩ = .ok (entries, s) ↔
      (minFileSize ≤ file.length % 2 ^ 32 ∧ file.take guidSize = validGuid ∧
        ChecksumOf file (file.length % 2 ^ 32 - 4)) ∧
      entriesNumber file ≤ maxEepromEntries ∧ minFileSize + entriesNumber file * entrySize ≤ file.length ∧
        entries = tableOf file ∧ s = ⟨file, true, minFileSize + entriesNumber file * entrySize⟩ := by
  rw [eepromFile, run_bind_ok validateFileLen_open]
  by_cases hlen : minFileSize ≤ file.length % 2 ^ 32
  · have hle : minFileSize ≤ file.length := hlen.trans (Nat.mod_le _ _)
    have hguidSize : guidSize ≤ file.length := Nat.le_trans (by decide) hle
    rw [decide_eq_true hlen, run_bind_ok throwUnless_true, run_bind_ok (validateGuid_open hguidSize)]
    by_cases hguid : file.take guidSize = validGuid
    · obtain ⟨pos', hcheck⟩ : ∃ pos', checkCrc ⟨file, true, guidSize⟩ = .ok (_, ⟨file, true, pos'⟩) :=
        checkCrc_open hlen
      rw [decide_eq_true hguid, run_bind_ok closeUnless_true, run_bind_ok hcheck]
      by_cases hcrc : ChecksumOf file (file.length % 2 ^ 32 - 4)
      · rw [decide_eq_true hcrc, run_bind_ok closeUnless_true, readTable_open_iff hle]
        exact ⟨fun h ↦ ⟨⟨hlen, hguid, hcrc⟩, h⟩, And.right⟩
      · -- the search for the header fails
        rw [decide_eq_false hcrc, run_bind_ok closeUnless_false, readTable, run_bind_error seekBeg_closed]
        exact ⟨fun h ↦ absurd h (by simp), fun h ↦ absurd h.1.2.2 hcrc⟩
    · -- the search for the checksum fails
      rw [decide_eq_false hguid, run_bind_ok closeUnless_false, run_bind_error checkCrc_closed]
      exact ⟨fun h ↦ absurd h (by simp), fun h ↦ absurd h.1.2.1 hguid⟩
  · rw [decide_eq_false hlen, run_bind_error throwUnless_false]
    exact ⟨fun h ↦ absurd h (by simp), fun h ↦ absurd h.1.1 hlen⟩

theorem getBinaryEeproms_ok_iff :
    (∃ s, getBinaryEeproms entry ⟨file, true, pos⟩ = .ok (images, s)) ↔
      InFile file entry.firstEepromOffset entry.firstEepromSize ∧
        InFile file entry.secondEepromOffset entry.secondEepromSize ∧
        images = (range file entry.firstEepromOffset entry.firstEepromSize,
          range file entry.secondEepromOffset entry.secondEepromSize) := by
  rw [getBinaryEeproms, run_bind_ok seekBeg_open]
  by_cases hfirst : InFile file entry.firstEepromOffset entry.firstEepromSize
  · rw [run_bind_ok (read_open hfirst), run_bind_ok seekBeg_open]
    by_cases hsecond : InFile file entry.secondEepromOffset entry.secondEepromSize
    · rw [run_bind_ok (read_open hsecond)]
      constructor
      · rintro ⟨s, h⟩
        cases h
        exact ⟨hfirst, hsecond, rfl⟩
      · rintro ⟨-, -, rfl⟩
        exact ⟨_, rfl⟩
    · rw [run_bind_error (read_outside hsecond)]
      exact ⟨fun h ↦ absurd h (by simp), fun h ↦ absurd h.2.1 hsecond⟩
  · rw [run_bind_error (read_outside hfirst)]
    exact ⟨fun h ↦ absurd h (by simp), fun h ↦ absurd h.1 hfirst⟩

theorem images_of_ok {validEntry : EepromEntry} {s' : Stream}
    (h : (do
      let eepromBin ← getBinaryEeproms validEntry
      return some (validEntry, eepromBin) : Reader _) s = .ok (some (entry, images), s')) :
    validEntry = entry ∧ ∃ s', getBinaryEeproms validEntry s = .ok (images, s') := by
  cases himages : getBinaryEeproms validEntry s with
  | error e =>
    rw [run_bind_error himages] at h
    cases h
  | ok r =>
    rw [run_bind_ok himages] at h
    cases h
    exact ⟨rfl, _, rfl⟩

theorem tryBlock_ok_iff :
    (∃ s, tryBlock env ⟨file, true, pos⟩ = .ok (some (entry, images), s)) ↔
      Accepted file env.matching entry ∧
        images = (range file entry.firstEepromOffset entry.firstEepromSize,
          range file entry.secondEepromOffset entry.secondEepromSize) := by
  rw [tryBlock]
  cases heq : eepromFile ⟨file, true, pos⟩ with
  | error e =>
    rw [run_bind_error heq]
    refine ⟨fun ⟨_, h⟩ ↦ absurd h (by simp), ?_⟩
    rintro ⟨h, -⟩
    have hok : eepromFile ⟨file, true, pos⟩ = .ok _ := eepromFile_ok_iff.mpr
      ⟨⟨h.length_le, h.guid, h.crc⟩, h.entries_le, h.table_le, rfl, rfl⟩
    exact absurd (heq.symm.trans hok) (by simp)
  | ok r =>
    obtain ⟨entries, s⟩ := r
    obtain ⟨⟨hlen, hguid, hcrc⟩, hle, htable, rfl, rfl⟩ := eepromFile_ok_iff.mp heq
    have hopen : Reader.isOpen ⟨file, true, minFileSize + entriesNumber file * entrySize⟩ =
      .ok (true, ⟨file, true, minFileSize + entriesNumber file * entrySize⟩) := rfl
    rw [run_bind_ok heq, run_bind_ok hopen, if_pos rfl]
    rcases hfilter : (tableOf file).filter env.matching with _ | ⟨validEntry, _ | ⟨other, more⟩⟩
    · constructor
      · rintro ⟨s, h⟩
        cases h
      · rintro ⟨h, -⟩
        exact absurd (hfilter.symm.trans h.filter_eq) (by simp)
    · constructor
      · rintro ⟨s, h⟩
        obtain ⟨rfl, himages⟩ := images_of_ok h
        obtain ⟨hfirst, hsecond, rfl⟩ := getBinaryEeproms_ok_iff.mp himages
        exact ⟨⟨⟨hguid, hle, htable, hfilter⟩, hlen, hcrc, hfirst, hsecond⟩, rfl⟩
      · rintro ⟨h, himages⟩
        obtain rfl : validEntry = entry := by simpa using hfilter.symm.trans h.filter_eq
        obtain ⟨s, hs⟩ := getBinaryEeproms_ok_iff.mpr ⟨h.first_inFile, h.second_inFile, himages⟩
        exact ⟨s, run_bind_ok hs⟩
    · constructor
      · rintro ⟨s, h⟩
        cases h
      · rintro ⟨h, -⟩
        exact absurd (hfilter.symm.trans h.filter_eq) (by simp)

theorem chosen_eq_some_iff :
    chosen env = some (entry, images) ↔ ∃ file, env.file = some file ∧ Accepted file env.matching entry ∧
      images = (range file entry.firstEepromOffset entry.firstEepromSize,
        range file entry.secondEepromOffset entry.secondEepromSize) := by
  rw [chosen, openFile]
  cases hfile : env.file with
  | none => simp [bind, Except.bind]
  | some file =>
    have h : (∃ s, tryBlock env ⟨file, true, 0⟩ = .ok (some (entry, images), s)) ↔ _ := tryBlock_ok_iff
    simp only [Option.some.injEq, exists_eq_left', ← h]
    show (match tryBlock env ⟨file, true, 0⟩ with | .ok (result, _) => result | .error _ => none) = _ ↔ _
    cases tryBlock env ⟨file, true, 0⟩ with
    | error e => simp
    | ok r => simp [Prod.ext_iff]

/-! ## The images -/

variable {entry : EepromEntry}

theorem length_range (h : InFile file off size) : (range file off size).length = size := by
  rw [range, List.length_take, List.length_drop]
  rcases h with h | h <;> omega

theorem readEepromCrc_range (h : InFile file off size) :
    readEepromCrc (range file off size) =
      if size < 4 then .error .badCast else .ok (field file (off + size - 4)) := by
  rw [readEepromCrc, length_range h]
  split_ifs with hsize
  · rfl
  · have hadd : off + (size - 4) = off + size - 4 := by omega
    rw [range, List.drop_take, List.drop_drop, hadd, Nat.sub_sub_self (Nat.le_of_not_lt hsize), field]

/-- The exception that escapes is raised for an image that is too short. -/
theorem updateChosen_eq (hfirst : InFile file entry.firstEepromOffset entry.firstEepromSize)
    (hsecond : InFile file entry.secondEepromOffset entry.secondEepromSize) :
    updateChosen env entry (range file entry.firstEepromOffset entry.firstEepromSize,
        range file entry.secondEepromOffset entry.secondEepromSize) =
      if 4 ≤ entry.firstEepromSize ∧ 4 ≤ entry.secondEepromSize then
        if Allowed env file entry then
          updateImages env entry (range file entry.firstEepromOffset entry.firstEepromSize,
            range file entry.secondEepromOffset entry.secondEepromSize)
        else ⟨[], some false⟩
      else ⟨[], none⟩ := by
  rw [updateChosen, readEepromCrc_range hfirst, readEepromCrc_range hsecond]
  by_cases h : 4 ≤ entry.firstEepromSize
  · by_cases h' : 4 ≤ entry.secondEepromSize
    · rw [if_neg (Nat.not_lt.mpr h), if_neg (Nat.not_lt.mpr h'), if_pos ⟨h, h'⟩]
      rfl
    · have hboth : ¬ (4 ≤ entry.firstEepromSize ∧ 4 ≤ entry.secondEepromSize) := fun hand ↦ h' hand.2
      rw [if_neg hboth, if_pos (Nat.lt_of_not_le h'), if_neg (Nat.not_lt.mpr h)]
  · have hboth : ¬ (4 ≤ entry.firstEepromSize ∧ 4 ≤ entry.secondEepromSize) := fun hand ↦ h hand.1
    rw [if_neg hboth, if_pos (Nat.lt_of_not_le h)]

theorem take_range : (range file off size).take size = range file off size := by
  rw [range, List.take_take, Nat.min_self]

theorem updateImages_passes (hfirst : InFile file entry.firstEepromOffset entry.firstEepromSize)
    (hsecond : InFile file entry.secondEepromOffset entry.secondEepromSize) (hfd : env.cardFd = true)
    (hmemory : env.first ≠ .noMemory) :
    (updateImages env entry (range file entry.firstEepromOffset entry.firstEepromSize,
        range file entry.secondEepromOffset entry.secondEepromSize)).result ≠ none ∧
      Passes env file entry (updateImages env entry (range file entry.firstEepromOffset entry.firstEepromSize,
        range file entry.secondEepromOffset entry.secondEepromSize)).ioctls := by
  rw [updateImages, if_pos hfd, take_range, take_range]
  cases hioctl : env.first with
  | noMemory => exact absurd hioctl hmemory
  | failed => exact ⟨by simp, hfirst, hsecond, [], rfl, Or.inl rfl⟩
  | success =>
    -- what is passed for the second EEPROM follows what was passed for the first one
    simp only [updateSecond]
    split_ifs with htwo hextd
    · cases env.second with
      | noMemory => exact ⟨by simp, hfirst, hsecond, [], rfl, Or.inl rfl⟩
      | failed => exact ⟨by simp, hfirst, hsecond, _, rfl, Or.inr ⟨htwo, rfl⟩⟩
      | success => exact ⟨by simp, hfirst, hsecond, _, rfl, Or.inr ⟨htwo, rfl⟩⟩
    · exact ⟨by simp, hfirst, hsecond, [], rfl, Or.inl rfl⟩
    · exact ⟨by simp, hfirst, hsecond, [], rfl, Or.inl rfl⟩

theorem updateImages_of_not (h : ¬ (env.cardFd = true ∧ env.first ≠ .noMemory)) :
    updateImages env entry images = ⟨[], some false⟩ := by
  rw [updateImages]
  split_ifs with hfd
  · have hmemory : env.first = .noMemory := by
      by_contra hne
      exact h ⟨hfd, hne⟩
    rw [hmemory]
  · rfl

/-! ## The command -/

theorem updateEeprom_of_reaches (h : Reaches env file entry) :
    updateEeprom env = updateChosen env entry (range file entry.firstEepromOffset entry.firstEepromSize,
      range file entry.secondEepromOffset entry.secondEepromSize) := by
  obtain ⟨hroot, hstate, hfile, haccepted⟩ := h
  have hchosen := chosen_eq_some_iff.mpr ⟨file, hfile, haccepted, rfl⟩
  have hpermitted : (!env.cardStateOk && !env.force) = false := by
    rw [← Bool.not_or, hstate]
    rfl
  rw [updateEeprom, hroot, hpermitted, hchosen]
  rfl

theorem updateEeprom_of_not (h : ∀ file entry, ¬ Reaches env file entry) : updateEeprom env = ⟨[], some false⟩ := by
  rw [updateEeprom]
  split_ifs with hroot hstate
  · rfl
  · rfl
  · cases hchosen : chosen env with
    | none => rfl
    | some r =>
      obtain ⟨entry, images⟩ := r
      obtain ⟨file, hfile, haccepted, -⟩ := chosen_eq_some_iff.mp hchosen
      refine absurd ⟨?_, ?_, hfile, haccepted⟩ (h file entry)
      · simpa using hroot
      · rwa [← Bool.not_or, Bool.not_eq_true, Bool.not_eq_false'] at hstate

/-- The command meets its purpose if and only if no file that is accepted has an image without a checksum, or is
itself too long for its checksum. -/
theorem update_eeprom_right_iff (env : UpdateEnv) : Right env ↔ Sound env := by
  constructor
  · intro hright file entry hreaches
    have hfile := hreaches.2.2.1
    have haccepted := hreaches.2.2.2
    rw [Right, updateEeprom_of_reaches hreaches,
      updateChosen_eq haccepted.first_inFile haccepted.second_inFile] at hright
    by_cases hsize : 4 ≤ entry.firstEepromSize ∧ 4 ≤ entry.secondEepromSize
    · refine ⟨hsize.1, hsize.2, fun hallowed hfd hmemory ↦ ?_⟩
      have hpasses := updateImages_passes haccepted.first_inFile haccepted.second_inFile hfd hmemory
      rw [if_pos hsize, if_pos hallowed] at hright
      rcases hright with ⟨-, hnil⟩ | ⟨file', entry', hfile', hintact, -⟩
      · obtain ⟨-, -, -, more, hcons, -⟩ := hpasses
        rw [hnil] at hcons
        cases hcons
      · cases hfile.symm.trans hfile'
        exact hintact.crc
    · -- the exception escapes
      rw [if_neg hsize] at hright
      rcases hright with ⟨hfalse, -⟩ | ⟨-, -, -, -, hnone, -⟩
      · cases hfalse
      · exact absurd rfl hnone
  · intro hsound
    by_cases hreaches : ∃ file entry, Reaches env file entry
    · obtain ⟨file, entry, h⟩ := hreaches
      obtain ⟨hfirst, hsecond, hcrc⟩ := hsound file entry h
      have hfile := h.2.2.1
      have haccepted := h.2.2.2
      rw [Right, updateEeprom_of_reaches h, updateChosen_eq haccepted.first_inFile haccepted.second_inFile,
        if_pos ⟨hfirst, hsecond⟩]
      by_cases hallowed : Allowed env file entry
      · rw [if_pos hallowed]
        by_cases hioctl : env.cardFd = true ∧ env.first ≠ .noMemory
        · have hpasses := updateImages_passes haccepted.first_inFile haccepted.second_inFile hioctl.1 hioctl.2
          have hlen : 4 ≤ file.length := by
            have hle := haccepted.length_le.trans (Nat.mod_le _ _)
            exact Nat.le_trans (by decide) hle
          have hintact : Intact file env.matching entry :=
            ⟨haccepted.toTabled, hlen, hcrc hallowed hioctl.1 hioctl.2⟩
          exact Or.inr ⟨file, entry, hfile, hintact, hpasses.1, hpasses.2⟩
        · rw [updateImages_of_not hioctl]
          exact Or.inl ⟨rfl, rfl⟩
      · rw [if_neg hallowed]
        exact Or.inl ⟨rfl, rfl⟩
    · push Not at hreaches
      rw [Right, updateEeprom_of_not hreaches]
      exact Or.inl ⟨rfl, rfl⟩

/-- A container with one entry, for a card with one EEPROM: its first image has four bytes, and its second none. -/
def emptySecondImage : List UInt8 :=
  let file := validGuid ++ bytes 4 1 ++ bytes 4 1 ++ bytes 4 1 ++
    bytes 4 0x10 ++ bytes 4 0 ++ bytes 4 52 ++ bytes 4 4 ++ bytes 4 56 ++ bytes 4 0 ++ [0xce, 0xc0, 0x29, 0xad]
  file ++ bytes 4 (crc32 file)

/-- The image is one that is known, and it is the only one that the card needs. -/
theorem empty_second_image_escapes :
    ¬ Right ⟨true, true, false, true, 0x10, some emptySecondImage, true, .success, true, .success⟩ := by
  have h : updateEeprom ⟨true, true, false, true, 0x10, some emptySecondImage, true, .success, true, .success⟩ =
      ⟨[], none⟩ := by
    decide +kernel
  rw [Right, h]
  rintro (⟨hfalse, -⟩ | ⟨-, -, -, -, hnone, -⟩)
  · cases hfalse
  · exact hnone rfl

end Vcass.Vcactl.EepromUpdate
