import Mathlib.Tactic.SplitIfs
import Vcass.Elog.Parse

/-!
# What the parsers read

Each parser reads a number of bytes that does not depend on what they are, and takes a number from `CurShift`. So a
round of the loop is known from the header of the record: it stops where the file has not all the bytes, and else
leads from the record to the position that the length byte says.
-/

namespace Vcass.Elog

variable {α β : Type} {m : Parser α} {f : α → Parser β} {n n' : ℕ} {d d' : ℤ} {file : List UInt8} {c : Cursor}

theorem bind_apply (m : Parser α) (f : α → Parser β) (file : List UInt8) (c : Cursor) :
    (m >>= f) file c =
      match m file c with
      | .error e => .error e
      | .ok (a, c') => f a file c' := by
  change Except.bind (m file c) _ = _
  cases m file c <;> rfl

/-- `m` makes its value of the next `n` bytes and takes `d` from `CurShift`, or meets the end of the file. -/
def ReadsTo (m : Parser α) (n : ℕ) (d : ℤ) (v : List UInt8 → α) : Prop :=
  ∀ file c, m file c =
    if n = 0 ∨ c.pos + n ≤ file.length then .ok (v ((file.drop c.pos).take n), ⟨c.pos + n, c.curShift - d⟩)
    else .error .endOfData

def Reads (m : Parser α) (n : ℕ) (d : ℤ) : Prop := ∃ v, ReadsTo m n d v

theorem reads_pure (a : α) : Reads (pure a) 0 0 := by
  refine ⟨fun _ ↦ a, fun file c ↦ ?_⟩
  rw [if_pos (.inl rfl), Int.sub_zero]
  rfl

theorem Reads.bind (hm : Reads m n d) (hf : ∀ a, Reads (f a) n' d') : Reads (m >>= f) (n + n') (d + d') := by
  obtain ⟨v, hv⟩ := hm
  choose w hw using hf
  refine ⟨fun data ↦ w (v (data.take n)) (data.drop n), fun file c ↦ ?_⟩
  rw [bind_apply, hv file c]
  by_cases hn : n = 0 ∨ c.pos + n ≤ file.length
  · have hwindow : ((file.drop c.pos).take (n + n')).take n = (file.drop c.pos).take n := by
      rw [List.take_take, Nat.min_eq_left (Nat.le_add_right n n')]
    have hrest : ((file.drop c.pos).take (n + n')).drop n = (file.drop (c.pos + n)).take n' := by
      rw [List.drop_take, List.drop_drop, Nat.add_sub_cancel_left]
    have hfits : (n + n' = 0 ∨ c.pos + (n + n') ≤ file.length) ↔ (n' = 0 ∨ c.pos + n + n' ≤ file.length) := by omega
    rw [if_pos hn]
    refine (hw (v ((file.drop c.pos).take n)) file ⟨c.pos + n, c.curShift - d⟩).trans ?_
    simp only [hwindow, hrest, hfits, Nat.add_assoc, Int.sub_sub]
  · rw [if_neg hn, if_neg (by omega)]

theorem Reads.discard (hm : Reads m n d) : Reads (discard m) n d := by
  obtain ⟨v, hv⟩ := hm
  refine ⟨fun _ ↦ (), fun file c ↦ ?_⟩
  have happly : (Functor.discard m) file c =
      match m file c with
      | .error e => .error e
      | .ok (_, c') => .ok ((), c') := by
    change Except.bind (m file c) _ = _
    cases m file c <;> rfl
  rw [happly, hv file c]
  split_ifs <;> rfl

theorem ReadsTo.bind_apply {v : List UInt8 → α} (hm : ReadsTo m n d v) :
    (m >>= f) file c =
      if n = 0 ∨ c.pos + n ≤ file.length then
        f (v ((file.drop c.pos).take n)) file ⟨c.pos + n, c.curShift - d⟩
      else .error .endOfData := by
  rw [Elog.bind_apply, hm file c]
  split_ifs <;> rfl

theorem readsTo_ord : ReadsTo ord 1 0 fun data ↦ (data.headD 0).toNat := by
  intro file c
  rw [ord, Elog.bind_apply, read]
  cases hdrop : file.drop c.pos with
  | nil =>
    have hend := List.drop_eq_nil_iff.mp hdrop
    rw [if_neg (by omega)]
    rfl
  | cons b rest =>
    have hlength := congrArg List.length hdrop
    rw [List.length_drop, List.length_cons] at hlength
    rw [if_pos (by omega), Int.sub_zero]
    rfl

theorem reads_ord : Reads ord 1 0 := ⟨_, readsTo_ord⟩

theorem ord_bind_apply (f : ℕ → Parser β) :
    (ord >>= f) file c =
      if c.pos + 1 ≤ file.length then f (file.getD c.pos 0).toNat file ⟨c.pos + 1, c.curShift⟩
      else .error .endOfData := by
  have hhead : (((file.drop c.pos).take 1).headD 0) = file.getD c.pos 0 := by
    rw [List.getD_eq_getElem?_getD, ← List.head?_drop]
    cases file.drop c.pos <;> rfl
  rw [readsTo_ord.bind_apply, hhead, Int.sub_zero]
  simp only [Nat.one_ne_zero, false_or]

theorem reads_unpack (n : ℕ) : Reads (unpack n) n 0 := by
  refine ⟨fun data ↦ Nat.ofDigits 256 (data.map UInt8.toNat), fun file c ↦ ?_⟩
  rw [unpack, Elog.bind_apply, read]
  have hlength : ((file.drop c.pos).take n).length = n ↔ n = 0 ∨ c.pos + n ≤ file.length := by
    rw [List.length_take, List.length_drop]
    omega
  by_cases hn : n = 0 ∨ c.pos + n ≤ file.length
  · rw [if_pos hn, Int.sub_zero]
    simp only [hlength.mpr hn]
    rfl
  · rw [if_neg hn]
    simp only [if_neg (mt hlength.mp hn)]
    rfl

theorem reads_takeCurShift (d : ℤ) : Reads (takeCurShift d) 0 d := by
  refine ⟨fun _ ↦ (), fun file c ↦ ?_⟩
  rw [if_pos (.inl rfl)]
  rfl

/-- What is read behind a seek is not read at the end of the file either. -/
theorem Reads.seek (hm : Reads m n d) (hn : 0 < n) (k : ℕ) : Reads (Elog.seek k >>= fun _ ↦ m) (k + n) d := by
  obtain ⟨v, hv⟩ := hm
  refine ⟨fun data ↦ v (data.drop k), fun file c ↦ ?_⟩
  have hseek : Elog.seek k file c = .ok ((), ⟨c.pos + k, c.curShift⟩) := by
    rw [Elog.seek, if_pos (by omega)]
    rfl
  have hwindow : ((file.drop c.pos).take (k + n)).drop k = (file.drop (c.pos + k)).take n := by
    rw [List.drop_take, List.drop_drop, Nat.add_sub_cancel_left]
  have hfits : (k + n = 0 ∨ c.pos + (k + n) ≤ file.length) ↔ (n = 0 ∨ c.pos + k + n ≤ file.length) := by omega
  rw [bind_apply, hseek]
  refine (hv file ⟨c.pos + k, c.curShift⟩).trans ?_
  simp only [hwindow, hfits, Nat.add_assoc]

theorem Reads.of_eq (h : Reads m n d) (hn : n = n') (hd : d = d') : Reads m n' d' := hn ▸ hd ▸ h

theorem reads_parseTime : Reads parseTime 6 6 := by
  refine Reads.of_eq ?_ (rfl : 1 + (1 + (1 + (1 + (1 + (1 + (0 + 0)))))) = 6)
    (rfl : (0 : ℤ) + (0 + (0 + (0 + (0 + (0 + (6 + 0)))))) = 6)
  refine reads_ord.bind fun _ ↦ reads_ord.bind fun _ ↦ reads_ord.bind fun _ ↦ reads_ord.bind fun _ ↦ ?_
  exact reads_ord.bind fun _ ↦ reads_ord.bind fun _ ↦ (reads_takeCurShift 6).bind fun _ ↦ reads_pure _

theorem reads_parseBiosHandle : Reads parseBiosHandle 2 2 :=
  Reads.of_eq ((reads_unpack 2).bind fun _ ↦ (reads_takeCurShift 2).bind fun _ ↦ reads_pure _) rfl rfl

theorem reads_parseDword : Reads parseDword 4 4 :=
  Reads.of_eq ((reads_unpack 4).bind fun _ ↦ (reads_takeCurShift 4).bind fun _ ↦ reads_pure _) rfl rfl

/-- Each round of the loop shifts a one in from above, so that at most 32 rounds are needed. -/
theorem exists_evtCntLoop {fuel : ℕ} {evnCnt : BitVec 32} (h : ∀ i, fuel ≤ i → i < 32 → evnCnt.getLsbD i = true)
    (locCnt : ℕ) : ∃ k, evtCntLoop fuel evnCnt locCnt = some k := by
  induction fuel generalizing evnCnt locCnt with
  | zero =>
    have hones : evnCnt = 0xffffffff#32 := by
      apply BitVec.eq_of_getLsbD_eq
      intro i hi
      rw [h i (Nat.zero_le i) hi]
      exact (by decide : ∀ i < 32, true = (0xffffffff#32).getLsbD i) i hi
    exact ⟨locCnt, by rw [evtCntLoop, if_pos hones]⟩
  | succ fuel ih =>
    by_cases hones : evnCnt = 0xffffffff#32
    · exact ⟨locCnt, by rw [evtCntLoop, if_pos hones]⟩
    · rw [evtCntLoop, if_neg hones]
      apply ih
      intro i hle hi
      rw [BitVec.getLsbD_or, BitVec.getLsbD_ushiftRight]
      by_cases htop : i = 31
      · subst htop
        exact Bool.or_true _
      · rw [h (1 + i) (by omega) (by omega)]
        exact Bool.true_or _

theorem reads_parseEvtCnt : Reads parseEvtCnt 4 4 := by
  refine Reads.of_eq ?_ (rfl : 4 + (0 + 0) = 4) (rfl : (0 : ℤ) + (4 + 0) = 4)
  refine (reads_unpack 4).bind fun evnCnt ↦ (reads_takeCurShift 4).bind fun _ ↦ ?_
  have hnone : ∀ i, 32 ≤ i → i < 32 → (BitVec.ofNat 32 evnCnt).getLsbD i = true := by omega
  obtain ⟨k, hk⟩ := exists_evtCntLoop hnone 1
  simp only [hk]
  exact reads_pure k

/-- The bytes of a format that is known. -/
def formatBytes (evtLogFrm : ℕ) : Option ℕ :=
  match evtLogFrm with
  | 1 => some 2
  | 2 => some 4
  | 3 => some 6
  | 4 => some 4
  | 5 => some 4
  | 6 => some 8
  | _ => if 0x80 ≤ evtLogFrm ∧ evtLogFrm ≤ 0xff then some 0 else none

/-- A known format has a parser that reads its bytes, and an unknown one has none. -/
theorem parseFormat_spec (evtLogFrm : ℕ) :
    (formatBytes evtLogFrm = none ∧ parseFormat evtLogFrm = none) ∨
      ∃ n parse, formatBytes evtLogFrm = some n ∧ parseFormat evtLogFrm = some parse ∧ Reads parse n n := by
  match evtLogFrm with
  | 0 => exact .inl ⟨rfl, rfl⟩
  | 1 => exact .inr ⟨2, _, rfl, rfl, reads_parseBiosHandle.discard⟩
  | 2 => exact .inr ⟨4, _, rfl, rfl, reads_parseEvtCnt.discard⟩
  | 3 => exact .inr ⟨6, _, rfl, rfl, reads_parseBiosHandle.discard.bind fun _ ↦ reads_parseEvtCnt.discard⟩
  | 4 => exact .inr ⟨4, _, rfl, rfl, reads_parseDword.discard⟩
  | 5 => exact .inr ⟨4, _, rfl, rfl, reads_parseDword.discard⟩
  | 6 => exact .inr ⟨8, _, rfl, rfl, reads_parseDword.discard.bind fun _ ↦ reads_parseEvtCnt.discard⟩
  | k + 7 =>
    have hbytes : formatBytes (k + 7) = if 0x80 ≤ k + 7 ∧ k + 7 ≤ 0xff then some 0 else none := rfl
    have hparse : parseFormat (k + 7) = if 0x80 ≤ k + 7 ∧ k + 7 ≤ 0xff then some (pure ()) else none := rfl
    rw [hbytes, hparse]
    split_ifs with hoem
    · exact .inr ⟨0, _, rfl, rfl, reads_pure ()⟩
    · exact .inl ⟨rfl, rfl⟩

theorem reads_three_ord : Reads (do let a ← ord; let b ← ord; let c ← ord; return [a, b, c]) 3 0 :=
  Reads.of_eq (reads_ord.bind fun _ ↦ reads_ord.bind fun _ ↦ reads_ord.bind fun _ ↦ reads_pure _) rfl rfl

theorem reads_parseEccErrorData : Reads parseEccErrorData 3 3 :=
  Reads.of_eq ((reads_takeCurShift 3).bind fun _ ↦ reads_three_ord) rfl rfl

/-- The bytes of the data of an event, unless their parser raises. -/
def eventBytes (biosdata : Option BiosVersion) (typeEvt : ℕ) : ℕ :=
  match (eventDatas.lookup typeEvt).map EventData.parser with
  | some .parseEccErrorData => 3
  | some .parsePciErrorData => if biosdata.all fun bios ↦ before bios.major "012".toList then 0 else 6
  | _ => 0

theorem reads_parsePciErrorData (bios : BiosVersion) :
    Reads (parsePciErrorData (some bios)) (if before bios.major "012".toList then 0 else 6)
      (if before bios.major "012".toList then 0 else 6 : ℕ) := by
  by_cases hbefore : before bios.major "012".toList = true
  · simp only [parsePciErrorData, if_pos hbefore]
    exact reads_pure _
  · simp only [parsePciErrorData, if_neg hbefore]
    exact (reads_takeCurShift 6).bind fun _ ↦ reads_three_ord.seek (by decide) 3

/-! ## The records -/

/-- What the header of a record says. -/
structure Header where
  typeEvt : ℕ
  length : ℕ
  evtLogFrm : ℕ

/-- The header of the record that begins at a position. -/
def header (file : List UInt8) (p : ℕ) : Header :=
  ⟨(file.getD p 0).toNat, (file.getD (p + 1) 0).toNat, (file.getD (p + 8) 0).toNat⟩

/-- The bytes that are read of the data of a record. -/
def dataBytes (biosdata : Option BiosVersion) (h : Header) : ℕ :=
  match formatBytes h.evtLogFrm with
  | none => 0
  | some n => n + eventBytes biosdata h.typeEvt

/-- The bytes that are read of a record. -/
def prescribed (biosdata : Option BiosVersion) (h : Header) : ℕ := 9 + dataBytes biosdata h

/-- A record whose data `parse_pci_error_data` reads. -/
def Header.IsPci (h : Header) : Prop :=
  (h.typeEvt = 0x09 ∨ h.typeEvt = 0x0A) ∧ (formatBytes h.evtLogFrm).isSome

/-- The parsers of a record do not need a `biosdata` that is not set. -/
def Header.Readable (biosdata : Option BiosVersion) (h : Header) : Prop := biosdata.isSome ∨ ¬ h.IsPci

instance (h : Header) : Decidable h.IsPci := inferInstanceAs (Decidable (_ ∧ _))

instance (biosdata : Option BiosVersion) (h : Header) : Decidable (h.Readable biosdata) :=
  inferInstanceAs (Decidable (_ ∨ _))

variable {biosdata : Option BiosVersion} {h : Header} {typeEvt : ℕ} {data : EventData}

theorem parser_eq_pci_iff (hdata : eventDatas.lookup typeEvt = some data) :
    data.parser = .parsePciErrorData ↔ typeEvt = 0x09 ∨ typeEvt = 0x0A := by
  have hall : ∀ entry ∈ eventDatas, entry.2.parser = .parsePciErrorData ↔ entry.1 = 0x09 ∨ entry.1 = 0x0A := by
    decide
  obtain ⟨before, after, heq, -⟩ := List.lookup_eq_some_iff.mp hdata
  apply hall (typeEvt, data)
  rw [heq]
  exact List.mem_append_right _ List.mem_cons_self

theorem reads_run (hdata : eventDatas.lookup typeEvt = some data)
    (hread : biosdata.isSome ∨ data.parser ≠ .parsePciErrorData) :
    Reads (data.parser.run biosdata) (eventBytes biosdata typeEvt) (eventBytes biosdata typeEvt) := by
  unfold eventBytes
  rw [hdata, Option.map_some]
  cases hparser : data.parser with
  | emptyParser => exact reads_pure []
  | parseEccErrorData => exact reads_parseEccErrorData
  | parsePciErrorData =>
    obtain ⟨bios, rfl⟩ := Option.isSome_iff_exists.mp (hread.resolve_right fun hne ↦ hne hparser)
    exact reads_parsePciErrorData bios

theorem reads_parseData (hread : h.Readable biosdata) (curTm : DateTime) :
    Reads (parseData biosdata h.typeEvt h.evtLogFrm curTm) (dataBytes biosdata h) (dataBytes biosdata h) := by
  unfold parseData dataBytes
  rcases parseFormat_spec h.evtLogFrm with ⟨hbytes, hparse⟩ | ⟨n, parse, hbytes, hparse, hreads⟩
  · rw [hbytes, hparse]
    exact reads_pure none
  · rw [hbytes, hparse]
    refine Reads.of_eq (hreads.bind fun _ ↦ ?_) rfl (Nat.cast_add n _).symm
    cases hdata : eventDatas.lookup h.typeEvt with
    | none =>
      have hzero : eventBytes biosdata h.typeEvt = 0 := by
        rw [eventBytes, hdata]
        rfl
      rw [hzero]
      exact reads_pure none
    | some data =>
      have hrun : Reads (data.parser.run biosdata) (eventBytes biosdata h.typeEvt) (eventBytes biosdata h.typeEvt) := by
        apply reads_run hdata
        refine hread.imp_right fun hpci hparser ↦ hpci ⟨(parser_eq_pci_iff hdata).mp hparser, ?_⟩
        rw [hbytes]
        rfl
      exact Reads.of_eq (hrun.bind fun _ ↦ reads_pure _) rfl (Int.add_zero _)

theorem parseData_of_not_readable (hread : ¬ h.Readable biosdata) (curTm : DateTime) :
    parseData biosdata h.typeEvt h.evtLogFrm curTm file c =
      if dataBytes biosdata h = 0 ∨ c.pos + dataBytes biosdata h ≤ file.length then .error .indexError
      else .error .endOfData := by
  obtain ⟨hbios, hpci, hformat⟩ := not_or.mp hread |>.imp_right not_not.mp
  obtain rfl := Option.not_isSome_iff_eq_none.mp hbios
  unfold parseData dataBytes
  rcases parseFormat_spec h.evtLogFrm with ⟨hbytes, -⟩ | ⟨n, parse, hbytes, hparse, v, hv⟩
  · rw [hbytes] at hformat
    cases hformat
  · obtain ⟨data, hdata⟩ : ∃ data, eventDatas.lookup h.typeEvt = some data := by
      rcases hpci with htype | htype
      · rw [htype]
        exact ⟨_, rfl⟩
      · rw [htype]
        exact ⟨_, rfl⟩
    have hparser := (parser_eq_pci_iff hdata).mpr hpci
    have hzero : eventBytes none h.typeEvt = 0 := by
      rw [eventBytes, hdata, Option.map_some, hparser]
      rfl
    rw [hbytes, hparse, hzero]
    refine hv.bind_apply.trans ?_
    rw [hdata]
    simp only [hparser]
    rfl

theorem setCurShift_bind_apply (k : ℤ) (f : Unit → Parser β) :
    (setCurShift k >>= f) file c = f () file ⟨c.pos, k⟩ := rfl

theorem takeCurShift_bind_apply (k : ℤ) (f : Unit → Parser β) :
    (takeCurShift k >>= f) file c = f () file ⟨c.pos, c.curShift - k⟩ := rfl

/-- A round up to the data of the record; what `CurShift` was before does not matter. -/
theorem parseRecord_apply {v : List UInt8 → DateTime} (hv : ReadsTo parseTime 6 6 v) (p : ℕ) (s : ℤ) :
    parseRecord biosdata file ⟨p, s⟩ =
      if p < file.length ∧ (header file p).typeEvt = 0xff then .error .endOfLog
      else if p + 9 ≤ file.length then
        (do
          let event ← parseData biosdata (header file p).typeEvt (header file p).evtLogFrm
            (v ((file.drop (p + 2)).take 6))
          seekCurShift
          return event : Parser (Option Event)) file ⟨p + 9, (header file p).length - 9⟩
      else .error .endOfData := by
  unfold parseRecord
  rw [ord_bind_apply]
  by_cases htype : p + 1 ≤ file.length
  · rw [if_pos htype]
    change (if (header file p).typeEvt = 0xff then fail .endOfLog else _ : Parser (Option Event)) file _ = _
    by_cases hend : (header file p).typeEvt = 0xff
    · rw [if_pos hend, if_pos ⟨htype, hend⟩]
      rfl
    · rw [if_neg hend, if_neg (not_and_of_not_right _ hend), ord_bind_apply]
      simp only [setCurShift_bind_apply, hv.bind_apply, ord_bind_apply, takeCurShift_bind_apply]
      by_cases hnine : p + 9 ≤ file.length
      · have hlength : p + 1 + 1 ≤ file.length := by omega
        have htime : 6 = 0 ∨ p + 1 + 1 + 6 ≤ file.length := by omega
        have hformat : p + 1 + 1 + 6 + 1 ≤ file.length := by omega
        have hshift : ((header file p).length : ℤ) - 2 - 6 - 1 = (header file p).length - 9 := by omega
        rw [if_pos hlength, if_pos htime, if_pos hformat, if_pos hnine, ← hshift]
        rfl
      · rw [if_neg hnine]
        -- one of the reads meets the end
        split_ifs
        · rfl
        · rfl
        · rfl
  · rw [if_neg htype, if_neg (by omega), if_neg (by omega)]

/-- The seek behind a parser leads to the same position, whatever the parser has read. -/
theorem ReadsTo.seekCurShift {v : List UInt8 → α} (hm : ReadsTo m n n v) {p : ℕ} {k : ℤ} (hk : 0 ≤ p + k) :
    (do
      let a ← m
      Elog.seekCurShift
      return a : Parser α) file ⟨p, k⟩ =
      if n = 0 ∨ p + n ≤ file.length then .ok (v ((file.drop p).take n), ⟨(p + k).toNat, k - n⟩)
      else .error .endOfData := by
  have hsum : ((p + n : ℕ) : ℤ) + (k - n) = p + k := by omega
  have hseek : Elog.seekCurShift file ⟨p + n, k - n⟩ = .ok ((), ⟨(p + k).toNat, k - n⟩) := by
    rw [Elog.seekCurShift, Elog.seek, hsum, if_pos hk]
  rw [hm.bind_apply]
  refine if_congr Iff.rfl ?_ rfl
  rw [Elog.bind_apply, hseek]
  rfl

theorem exists_data_eq (biosdata : Option BiosVersion) (h : Header) :
    ∃ event : DateTime → List UInt8 → Option Event, ∀ curTm file p, p + 9 ≤ file.length →
      (do
        let event ← parseData biosdata h.typeEvt h.evtLogFrm curTm
        seekCurShift
        return event : Parser (Option Event)) file ⟨p + 9, h.length - 9⟩ =
        if p + prescribed biosdata h ≤ file.length then
          if h.Readable biosdata then
            .ok (event curTm ((file.drop (p + 9)).take (dataBytes biosdata h)),
              ⟨p + h.length, h.length - 9 - dataBytes biosdata h⟩)
          else .error .indexError
        else .error .endOfData := by
  have hfits (file : List UInt8) (p : ℕ) (hnine : p + 9 ≤ file.length) :
      (dataBytes biosdata h = 0 ∨ p + 9 + dataBytes biosdata h ≤ file.length) ↔
        p + prescribed biosdata h ≤ file.length := by
    unfold prescribed
    omega
  by_cases hread : h.Readable biosdata
  · choose event hevent using fun curTm ↦ reads_parseData hread curTm
    refine ⟨event, fun curTm file p hnine ↦ ?_⟩
    have hnext : (((p + 9 : ℕ) : ℤ) + (h.length - 9)).toNat = p + h.length := by omega
    rw [(hevent curTm).seekCurShift (by omega), hnext, if_congr (hfits file p hnine) rfl rfl, if_pos hread]
  · refine ⟨fun _ _ ↦ none, fun curTm file p hnine ↦ ?_⟩
    rw [Elog.bind_apply, parseData_of_not_readable hread, if_congr (hfits file p hnine) rfl rfl, if_neg hread]
    split_ifs
    · rfl
    · rfl

/-- What a round does is known from the header: the event is made of the bytes of the record, and the next round
begins where the length byte says. -/
theorem exists_step_eq (biosdata : Option BiosVersion) (h : Header) :
    ∃ event : List UInt8 → Option Event, ∀ file p, header file p = h →
      step biosdata file p =
        if p < file.length ∧ h.typeEvt = 0xff then .error .endOfLog
        else if p + prescribed biosdata h ≤ file.length then
          if h.Readable biosdata then .ok (p + h.length, event ((file.drop p).take (prescribed biosdata h)))
          else .error .indexError
        else .error .endOfData := by
  obtain ⟨vt, hvt⟩ := reads_parseTime
  obtain ⟨event, hevent⟩ := exists_data_eq biosdata h
  refine ⟨fun record ↦ event (vt ((record.drop 2).take 6)) (record.drop 9), fun file p hheader ↦ ?_⟩
  have htime : (((file.drop p).take (prescribed biosdata h)).drop 2).take 6 = (file.drop (p + 2)).take 6 := by
    rw [List.drop_take, List.drop_drop, List.take_take, Nat.min_eq_left (by unfold prescribed; omega)]
  have hdata :
      ((file.drop p).take (prescribed biosdata h)).drop 9 = (file.drop (p + 9)).take (dataBytes biosdata h) := by
    rw [List.drop_take, List.drop_drop, prescribed, Nat.add_sub_cancel_left]
  rw [step, parseRecord_apply hvt, hheader]
  by_cases hend : p < file.length ∧ h.typeEvt = 0xff
  · rw [if_pos hend, if_pos hend]
  · rw [if_neg hend, if_neg hend]
    by_cases hnine : p + 9 ≤ file.length
    · rw [if_pos hnine, hevent _ file p hnine]
      simp only [htime, hdata]
      split_ifs
      · rfl
      · rfl
      · rfl
    · have hshort : ¬ p + prescribed biosdata h ≤ file.length := by
        unfold prescribed
        omega
      rw [if_neg hnine, if_neg hshort]

/-- A record, and not the end of the log, whose bytes are all in the file. -/
def Complete (biosdata : Option BiosVersion) (file : List UInt8) (p : ℕ) : Prop :=
  (header file p).typeEvt ≠ 0xff ∧ p + prescribed biosdata (header file p) ≤ file.length

instance (biosdata : Option BiosVersion) (file : List UInt8) (p : ℕ) : Decidable (Complete biosdata file p) :=
  inferInstanceAs (Decidable (_ ∧ _))

variable {p : ℕ}

theorem exists_step_of_complete (hread : h.Readable biosdata) :
    ∃ event : List UInt8 → Option Event, ∀ file p, header file p = h → Complete biosdata file p →
      step biosdata file p = .ok (p + h.length, event ((file.drop p).take (prescribed biosdata h))) := by
  obtain ⟨event, hevent⟩ := exists_step_eq biosdata h
  refine ⟨event, ?_⟩
  rintro file p rfl hcomplete
  rw [hevent file p rfl, if_neg (not_and_of_not_right _ hcomplete.1), if_pos hcomplete.2, if_pos hread]

theorem step_of_complete (hcomplete : Complete biosdata file p) (hread : (header file p).Readable biosdata) :
    ∃ event, step biosdata file p = .ok (p + (header file p).length, event) := by
  obtain ⟨event, hevent⟩ := exists_step_of_complete hread
  exact ⟨_, hevent file p rfl hcomplete⟩

theorem step_of_not_readable (hcomplete : Complete biosdata file p) (hread : ¬ (header file p).Readable biosdata) :
    step biosdata file p = .error .indexError := by
  obtain ⟨event, hevent⟩ := exists_step_eq biosdata (header file p)
  rw [hevent file p rfl, if_neg (not_and_of_not_right _ hcomplete.1), if_pos hcomplete.2, if_neg hread]

theorem step_of_not_complete (hcomplete : ¬ Complete biosdata file p) :
    step biosdata file p = .error .endOfLog ∨ step biosdata file p = .error .endOfData := by
  obtain ⟨event, hevent⟩ := exists_step_eq biosdata (header file p)
  rw [hevent file p rfl]
  by_cases hend : p < file.length ∧ (header file p).typeEvt = 0xff
  · rw [if_pos hend]
    exact .inl rfl
  · have hshort : ¬ p + prescribed biosdata (header file p) ≤ file.length := by
      intro hfits
      refine hcomplete ⟨fun htype ↦ hend ⟨?_, htype⟩, hfits⟩
      unfold prescribed at hfits
      omega
    rw [if_neg hend, if_neg hshort]
    exact .inr rfl

end Vcass.Elog
