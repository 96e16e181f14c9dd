import Vcass.Lib.Lines
import Vcass.Vcactl.PowerButton

/-!
# Lines of the message FIFO

The daemon reads its FIFO in pieces, which need not end where a line ends. The part of a line that has been read is
kept in a buffer until the piece with its newline comes; a line that does not fit into the buffer is skipped, and
since its newline may still be far away, the daemon remembers between the pieces that it is skipping.

`fifo_lines` says that none of this can be seen from the commands: however the stream is cut into pieces, they are
its lines that are short enough.
-/

namespace Vcass.Vcactl.FifoLines

open Lines PowerButton

/-! ## The code -/

/-- `MAX_COMMAND_SIZE`. -/
def maxCommandSize : ℕ := pathMax * 2

/-- `PIPE_BUF`. -/
def pipeBuf : ℕ := 4096

/-- The buffer for the remainder of a piece, with the lines that have been passed to `parse_command`. -/
structure Buffer where
  remainder : List Char
  /-- What the buffer has held, so far. -/
  held : List (List Char)
  commands : List (List Char)
  deriving DecidableEq, Repr

/-- The remainder is replaced. -/
def Buffer.store (b : Buffer) (remainder : List Char) : Buffer :=
  { b with remainder := remainder, held := b.held ++ [remainder] }

def Buffer.parseCommand (b : Buffer) (line : List Char) : Buffer := { b with commands := b.commands ++ [line] }

/-- The body of the loop in `parse_fifo_msg`, for the line before a newline, with the variable `ignore`. -/
def endLine : Buffer × Bool → List Char → Buffer × Bool
  | (b, true), _ => (b.store [], false)
  | (b, false), startLine =>
    if b.remainder = [] then ((b.parseCommand startLine).store [], false)
    else if maxCommandSize ≤ b.remainder.length + startLine.length then (b.store [], false)
    else
      let line := b.remainder ++ startLine
      (((b.store line).parseCommand line).store [], false)

/-- What follows the loop: `startLine` has no newline. The result says whether the line may go on. -/
def keepRemainder : Buffer × Bool → List Char → Buffer × Bool
  | (b, true), _ => (b, false)
  | (b, false), startLine =>
    if maxCommandSize ≤ b.remainder.length + startLine.length then (b.store [], false)
    else (b.store (b.remainder ++ startLine), true)

def parseFifoMsg (buf : List Char) (b : Buffer) (ignore : Bool) : Buffer × Bool :=
  -- the text of a buffer ends at the first NUL
  let (lines, startLine) := cut '\n' (buf.takeWhile (· ≠ '\x00'))
  keepRemainder (lines.foldl endLine (b, ignore)) startLine

/-- The loop around `read` in `fifo_mgr`, for the pieces that were read. -/
def fifoMgr (pieces : List (List Char)) : Buffer × Bool :=
  pieces.foldl (fun s buf ↦ parseFifoMsg buf s.1 (!s.2)) (⟨[], [[]], []⟩, true)

/-! ## The invariant -/

/-- What `read` can put into the buffer, of a stream without NUL. -/
structure IsPiece (buf : List Char) : Prop where
  nonempty : buf ≠ []
  length_lt : buf.length < pipeBuf
  notMem : '\x00' ∉ buf

/-- The lines have ended, and `begun` is what has been read of the next one. -/
structure Tracks (b : Buffer) (ignore : Bool) (lines : List (List Char)) (begun : List Char) : Prop where
  commands : b.commands = lines.filter (·.length < maxCommandSize)
  held : ∀ r ∈ b.held, r.length < maxCommandSize
  /-- A line is ignored from the moment it no longer fits. -/
  ignore_iff : ignore = true ↔ maxCommandSize ≤ begun.length
  remainder : b.remainder = if ignore then [] else begun

variable {b b' : Buffer} {ignore : Bool} {lines lines' : List (List Char)} {begun line startLine buf stream : List Char}
variable {pieces : List (List Char)}

theorem IsPiece.takeWhile_eq (h : IsPiece buf) : buf.takeWhile (· ≠ '\x00') = buf := by
  rw [List.takeWhile_eq_self_iff]
  intro c hc
  exact decide_eq_true fun e ↦ h.notMem (e ▸ hc)

theorem pos_maxCommandSize : 0 < maxCommandSize := by decide

theorem Tracks.length_lt (h : Tracks b false lines begun) : begun.length < maxCommandSize :=
  Nat.lt_of_not_le fun hle ↦ Bool.false_ne_true (h.ignore_iff.mpr hle)

/-- A line has been passed to `parse_command`, or it was too long, and the next one begins. -/
theorem Tracks.forget (h : Tracks b ignore lines begun) (line : List Char)
    (hcommands : b'.commands = b.commands ++ [line].filter (·.length < maxCommandSize))
    (hheld : ∀ r ∈ b'.held, r ∈ b.held ∨ r.length < maxCommandSize) :
    Tracks (b'.store []) false (lines ++ [line]) [] := by
  constructor
  · rw [List.filter_append, ← h.commands]
    exact hcommands
  · intro r hr
    rcases List.mem_append.mp hr with hr | hr
    · exact (hheld r hr).elim (h.held r) id
    · rw [List.mem_singleton.mp hr]
      exact pos_maxCommandSize
  · simp [pos_maxCommandSize.ne']
  · rfl

theorem filter_long (h : maxCommandSize ≤ line.length) : [line].filter (·.length < maxCommandSize) = [] := by
  simp [h]

theorem filter_short (h : line.length < maxCommandSize) : [line].filter (·.length < maxCommandSize) = [line] := by
  simp [h]

theorem Tracks.endLine (h : Tracks b ignore lines begun) (hline : startLine.length < maxCommandSize) :
    ∃ b', endLine (b, ignore) startLine = (b', false) ∧ Tracks b' false (lines ++ [begun ++ startLine]) [] := by
  cases ignore with
  | true =>
    have hlong := h.ignore_iff.mp rfl
    refine ⟨_, rfl, h.forget _ ?_ fun r hr ↦ Or.inl hr⟩
    rw [filter_long (by rw [List.length_append]; exact Nat.le_add_right_of_le hlong), List.append_nil]
  | false =>
    have hrem : b.remainder = begun := h.remainder
    rw [FifoLines.endLine, hrem]
    split_ifs with hempty hlong
    · -- the line lies in one piece
      refine ⟨_, rfl, h.forget _ ?_ fun r hr ↦ Or.inl hr⟩
      rw [hempty, List.nil_append, filter_short hline]
      rfl
    · refine ⟨_, rfl, h.forget _ ?_ fun r hr ↦ Or.inl hr⟩
      rw [filter_long (by rwa [List.length_append]), List.append_nil]
    · have hshort : (begun ++ startLine).length < maxCommandSize := by
        rw [List.length_append]
        exact Nat.lt_of_not_le hlong
      refine ⟨_, rfl, h.forget _ ?_ ?_⟩
      · rw [filter_short hshort]
        rfl
      · intro r hr
        rcases List.mem_append.mp hr with hr | hr
        · exact Or.inl hr
        · rw [List.mem_singleton.mp hr]
          exact Or.inr hshort

/-- All lines that end in a piece. The first one of them is the end of a line that has begun before. -/
theorem Tracks.foldl_endLine (h : Tracks b ignore lines begun) (hlines : ∀ l ∈ lines', l.length < maxCommandSize) :
    ∃ b' ignore', lines'.foldl FifoLines.endLine (b, ignore) = (b', ignore') ∧
      Tracks b' ignore' (glue (lines, begun) (lines', [])).1 (glue (lines, begun) (lines', [])).2 := by
  induction lines' generalizing b ignore lines begun with
  | nil =>
    refine ⟨b, ignore, rfl, ?_⟩
    simpa [glue] using h
  | cons line lines' ih =>
    obtain ⟨b', hend, h'⟩ := h.endLine (hlines line List.mem_cons_self)
    obtain ⟨b'', ignore'', hfold, h''⟩ := ih h' fun l hl ↦ hlines l (List.mem_cons_of_mem _ hl)
    refine ⟨b'', ignore'', ?_, ?_⟩
    · rw [List.foldl_cons, hend, hfold]
    · rcases lines' with _ | ⟨line', lines'⟩
      · simpa [glue] using h''
      · simpa [glue, List.append_assoc] using h''

theorem Tracks.keepRemainder (h : Tracks b ignore lines begun) (startLine : List Char) :
    ∃ b' ok, keepRemainder (b, ignore) startLine = (b', ok) ∧ Tracks b' (!ok) lines (begun ++ startLine) := by
  cases ignore with
  | true =>
    have hlong := h.ignore_iff.mp rfl
    refine ⟨b, false, rfl, h.commands, h.held, ?_, h.remainder⟩
    rw [List.length_append]
    exact ⟨fun _ ↦ Nat.le_add_right_of_le hlong, fun _ ↦ rfl⟩
  | false =>
    have hrem : b.remainder = begun := h.remainder
    rw [FifoLines.keepRemainder, hrem, ← List.length_append]
    split_ifs with hlong
    · refine ⟨_, _, rfl, h.commands, ?_, ⟨fun _ ↦ hlong, fun _ ↦ rfl⟩, rfl⟩
      intro r hr
      rcases List.mem_append.mp hr with hr | hr
      · exact h.held r hr
      · rw [List.mem_singleton.mp hr]
        exact pos_maxCommandSize
    · refine ⟨_, _, rfl, h.commands, ?_, ⟨fun hf ↦ absurd hf (by decide), fun hle ↦ absurd hle hlong⟩, rfl⟩
      intro r hr
      rcases List.mem_append.mp hr with hr | hr
      · exact h.held r hr
      · rw [List.mem_singleton.mp hr]
        exact Nat.lt_of_not_le hlong

theorem Tracks.parseFifoMsg (h : Tracks b ignore (cut '\n' stream).1 (cut '\n' stream).2) (hbuf : IsPiece buf) :
    ∃ b' ok, parseFifoMsg buf b ignore = (b', ok) ∧
      Tracks b' (!ok) (cut '\n' (stream ++ buf)).1 (cut '\n' (stream ++ buf)).2 := by
  have hcut := isCut_cut '\n' buf
  rw [FifoLines.parseFifoMsg, hbuf.takeWhile_eq, cut_append]
  rcases hlines : cut '\n' buf with ⟨lines', startLine⟩
  rw [hlines] at hcut
  have hshort : ∀ l ∈ lines', l.length < maxCommandSize := by
    intro l hl
    have hle : l.length ≤ buf.length := by
      obtain ⟨before, after, rfl⟩ := List.append_of_mem hl
      rw [hcut.text_eq]
      simp only [List.flatMap_append, List.flatMap_cons, List.length_append]
      omega
    have hpipe : pipeBuf ≤ maxCommandSize := by decide
    exact Nat.lt_of_le_of_lt hle (Nat.lt_of_lt_of_le hbuf.length_lt hpipe)
  obtain ⟨b', ignore', hfold, h'⟩ := h.foldl_endLine hshort
  obtain ⟨b'', ok, hkeep, h''⟩ := h'.keepRemainder startLine
  refine ⟨b'', ok, ?_, ?_⟩
  · rw [← hkeep, ← hfold]
  · rcases lines' with _ | ⟨line, lines'⟩
    · simpa [glue] using h''
    · simpa [glue] using h''

theorem tracks_fifoMgr (hpieces : ∀ buf ∈ pieces, IsPiece buf) :
    Tracks (fifoMgr pieces).1 (!(fifoMgr pieces).2) (cut '\n' pieces.flatten).1 (cut '\n' pieces.flatten).2 := by
  induction pieces using List.reverseRecOn with
  | nil =>
    refine ⟨rfl, ?_, ?_, rfl⟩
    · intro r hr
      rw [List.mem_singleton.mp hr]
      exact pos_maxCommandSize
    · simp [fifoMgr, cut, pos_maxCommandSize.ne']
  | append_singleton pieces buf ih =>
    have h := ih fun buf' hmem ↦ hpieces buf' (List.mem_append_left _ hmem)
    have hbuf := hpieces buf (List.mem_append_right _ (List.mem_singleton_self buf))
    obtain ⟨b', ok, hmsg, h'⟩ := h.parseFifoMsg hbuf
    have hstep : fifoMgr (pieces ++ [buf]) = (b', ok) := by
      rw [← hmsg, fifoMgr, List.foldl_append]
      rfl
    rw [hstep, List.flatten_append, List.flatten_singleton]
    exact h'

/-! ## The commands -/

/-- The lines of the stream that are short enough are the commands, in their order, and the buffer always has room
for its content and the terminator, however the stream was cut into pieces. -/
theorem fifo_lines (stream : List Char) (lines : List (List Char)) (rest : List Char)
    (hstream : IsCut '\n' stream lines rest) (pieces : List (List Char)) (hpieces : ∀ buf ∈ pieces, IsPiece buf)
    (hflatten : pieces.flatten = stream) :
    (fifoMgr pieces).1.commands = lines.filter (fun line ↦ line.length < maxCommandSize) ∧
      ∀ remainder ∈ (fifoMgr pieces).1.held, remainder.length + 1 ≤ maxCommandSize := by
  have h := tracks_fifoMgr hpieces
  rw [hflatten, hstream.cut_eq] at h
  exact ⟨h.commands, h.held⟩

theorem fifo_lines_three :
    (fifoMgr ["a\nb".toList, "c".toList, "\nd".toList]).1.commands = ["a".toList, "bc".toList] ∧
      ∀ remainder ∈ (fifoMgr ["a\nb".toList, "c".toList, "\nd".toList]).1.held,
        remainder.length + 1 ≤ maxCommandSize := by
  have h := fifo_lines "a\nbc\nd".toList ["a".toList, "bc".toList] "d".toList ⟨by decide, by decide, by decide⟩
    ["a\nb".toList, "c".toList, "\nd".toList] (by
      intro buf hbuf
      simp only [List.mem_cons, List.not_mem_nil, or_false] at hbuf
      rcases hbuf with rfl | rfl | rfl <;> exact ⟨by decide, by decide, by decide⟩) (by decide)
  exact ⟨h.1.trans (by decide), h.2⟩

end Vcass.Vcactl.FifoLines
