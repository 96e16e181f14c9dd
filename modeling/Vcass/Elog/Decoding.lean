import Mathlib.Data.List.ReduceOption
import Vcass.Elog.Reads
import Vcass.Elog.Report

/-!
# What is decoded of a log

In a log whose records are as long as they have to be, the length bytes lead from each record to the next, and what
is read of a record is in the record. The script then gives the same for the memory and for the file that `-d` has
saved of it, but for one thing: `parse_pci_error_data` looks at `biosdata`, which is set only when the memory is
read. With a PCI error in the log, `-i` dies with an `IndexError`.
-/

namespace Vcass.Elog

open Walk

/-! ## Logs -/

/-- A record of a log, which is at least as long as what is read of it. -/
structure Record (bios : BiosVersion) where
  bytes : List UInt8
  typeEvt_ne : (header bytes 0).typeEvt ≠ 0xff
  length_eq : (header bytes 0).length = bytes.length
  prescribed_le : prescribed (some bios) (header bytes 0) ≤ bytes.length

variable {bios : BiosVersion}

def Record.header (r : Record bios) : Header := Elog.header r.bytes 0

/-- The records one behind the other, and the end of the log. -/
def encode : List (Record bios) → List UInt8
  | [] => [0xff]
  | r :: log => r.bytes ++ encode log

/-- Where the records begin, and the end of the log. -/
def starts (start : ℕ) : List (Record bios) → List ℕ
  | [] => [start]
  | r :: log => start :: starts (start + r.bytes.length) log

/-! ## The property -/

/-- The script comes to the records in order, stops at the end of the log, and counts each type. -/
structure Decodes (log : List (Record bios)) (start : ℕ) (trace : Trace Stop (Option Event)) : Prop where
  visits : trace.visits = starts start log
  stop : trace.stop = some .endOfLog
  statistics : ∀ p, ∀ t ∈ allEvents, (report p trace.values).eventStatistics t =
    log.countP fun r ↦ r.header.typeEvt = t ∧ (formatBytes r.header.evtLogFrm).isSome

/-- The log is decoded from the memory and from the file that is saved of it, and what is printed is the same. -/
structure Exact (cmdresp : List Char) (log : List (Record bios)) (offset : ℕ) (memory : List UInt8) (fuel : ℕ) :
    Prop where
  online : Decodes log offset (printEvents (some bios) memory fuel offset)
  offline : ∃ file, downloadNvram cmdresp memory = some file ∧ Decodes log 0 (printEvents none file fuel 0) ∧
    ∀ p, readFile p file fuel = readMemory p cmdresp memory fuel

/-! ## One record -/

variable {biosdata : Option BiosVersion} {file bytes rest : List UInt8} {start p : ℕ}

theorem getD_of_drop (h : file.drop start = bytes ++ rest) {k : ℕ} (hk : k < bytes.length) :
    file.getD (start + k) 0 = bytes.getD k 0 := by
  rw [List.getD_eq_getElem?_getD, List.getD_eq_getElem?_getD, ← List.getElem?_drop, h, List.getElem?_append_left hk]

theorem Record.header_eq (r : Record bios) (h : file.drop start = r.bytes ++ rest) :
    Elog.header file start = r.header := by
  have hnine : 9 ≤ r.bytes.length := (Nat.le_add_right 9 _).trans r.prescribed_le
  have hat (k : ℕ) (hk : k < 9) : file.getD (start + k) 0 = r.bytes.getD (0 + k) 0 := by
    rw [getD_of_drop h (by omega), Nat.zero_add]
  unfold Record.header Elog.header
  rw [← hat 1 (by decide), ← hat 8 (by decide), ← hat 0 (by decide)]
  rfl

/-- The parsers of a record that is no PCI error do not look at `biosdata`. -/
theorem parseData_none (bios : BiosVersion) {h : Header} (hpci : ¬ h.IsPci) (curTm : DateTime) :
    parseData none h.typeEvt h.evtLogFrm curTm = parseData (some bios) h.typeEvt h.evtLogFrm curTm := by
  unfold parseData
  rcases parseFormat_spec h.evtLogFrm with ⟨-, hparse⟩ | ⟨n, parse, hbytes, hparse, -⟩
  · rw [hparse]
  · rw [hparse]
    cases hdata : eventDatas.lookup h.typeEvt with
    | none => rfl
    | some data =>
      have hparser : data.parser ≠ .parsePciErrorData := by
        intro hparser
        refine hpci ⟨(parser_eq_pci_iff hdata).mp hparser, ?_⟩
        rw [hbytes]
        rfl
      have hrun : data.parser.run none = data.parser.run (some bios) := by
        cases hkind : data.parser with
        | emptyParser => rfl
        | parseEccErrorData => rfl
        | parsePciErrorData => exact absurd hkind hparser
      simp only [hrun]

theorem step_none (hpci : ¬ (header file p).IsPci) : step none file p = step (some bios) file p := by
  obtain ⟨v, hv⟩ := reads_parseTime
  simp only [step, parseRecord_apply hv, parseData_none bios hpci]

/-- The event of a record. -/
def Record.event (r : Record bios) : Option Event :=
  match step (some bios) r.bytes 0 with
  | .ok (_, event) => event
  | .error _ => none

theorem Record.complete (r : Record bios) (h : file.drop start = r.bytes ++ rest) :
    Complete (some bios) file start := by
  have hlength := congrArg List.length h
  rw [List.length_drop, List.length_append] at hlength
  have hle : prescribed (some bios) r.header ≤ r.bytes.length := r.prescribed_le
  have hnine : 9 ≤ prescribed (some bios) r.header := Nat.le_add_right 9 _
  unfold Complete
  rw [r.header_eq h]
  exact ⟨r.typeEvt_ne, by omega⟩

/-- The round of a record gives its event and leads behind it. -/
theorem Record.step_eq (r : Record bios) (hbios : biosdata = some bios ∨ biosdata = none ∧ ¬ r.header.IsPci)
    (h : file.drop start = r.bytes ++ rest) :
    step biosdata file start = .ok (start + r.bytes.length, r.event) := by
  have hheader := r.header_eq h
  have hsome : step biosdata file start = step (some bios) file start := by
    rcases hbios with rfl | ⟨rfl, hpci⟩
    · rfl
    · exact step_none (hheader ▸ hpci)
  have hread : r.header.Readable (some bios) := .inl rfl
  have hlength : r.header.length = r.bytes.length := r.length_eq
  have hle : prescribed (some bios) r.header ≤ r.bytes.length := r.prescribed_le
  have hwindow : (file.drop start).take (prescribed (some bios) r.header) =
      (r.bytes.drop 0).take (prescribed (some bios) r.header) := by
    rw [h, List.take_append_of_le_length hle, List.drop_zero]
  obtain ⟨event, hevent⟩ := exists_step_of_complete hread
  have hown := hevent r.bytes 0 rfl (r.complete (List.append_nil _).symm)
  have hrecord : r.event = event ((r.bytes.drop 0).take (prescribed (some bios) r.header)) := by
    rw [Record.event, hown]
  rw [hsome, hevent file start hheader (r.complete h), hwindow, hrecord, hlength]

/-! ## What is counted -/

theorem mem_allEvents_iff {typeEvt : ℕ} : typeEvt ∈ allEvents ↔ (eventDatas.lookup typeEvt).isSome := by
  rw [List.lookup_isSome_iff, allEvents, List.mem_map]
  constructor
  · rintro ⟨entry, hentry, rfl⟩
    exact ⟨entry, hentry, beq_self_eq_true _⟩
  · rintro ⟨entry, hentry, heq⟩
    exact ⟨entry, hentry, (eq_of_beq heq).symm⟩

theorem typeEvt_of_parseData {h : Header} {curTm : DateTime} {c c' : Cursor} {event : Option Event}
    (hok : parseData biosdata h.typeEvt h.evtLogFrm curTm file c = .ok (event, c')) :
    event.map Event.typeEvt =
      if (formatBytes h.evtLogFrm).isSome ∧ h.typeEvt ∈ allEvents then some h.typeEvt else none := by
  unfold parseData at hok
  rcases parseFormat_spec h.evtLogFrm with ⟨hbytes, hparse⟩ | ⟨n, parse, hbytes, hparse, v, hv⟩
  · rw [hparse] at hok
    cases hok
    rw [hbytes]
    rfl
  · rw [hparse] at hok
    replace hok := hv.bind_apply.symm.trans hok
    split_ifs at hok with hfits
    cases hdata : eventDatas.lookup h.typeEvt with
    | none =>
      rw [hdata] at hok
      cases hok
      rw [if_neg]
      · rfl
      · rw [mem_allEvents_iff, hdata]
        exact fun hmem ↦ Bool.noConfusion hmem.2
    | some data =>
      have hmem : h.typeEvt ∈ allEvents := by
        rw [mem_allEvents_iff, hdata]
        rfl
      rw [if_pos ⟨Option.isSome_of_eq_some hbytes, hmem⟩]
      simp only [hdata, bind_apply] at hok
      split at hok
      · cases hok
      · cases hok
        rfl

theorem typeEvt_of_step {q : ℕ} {event : Option Event} (hok : step biosdata file p = .ok (q, event)) :
    event.map Event.typeEvt =
      if (formatBytes (header file p).evtLogFrm).isSome ∧ (header file p).typeEvt ∈ allEvents then
        some (header file p).typeEvt else none := by
  obtain ⟨v, hv⟩ := reads_parseTime
  rw [step, parseRecord_apply hv] at hok
  split_ifs at hok with hend hnine
  rw [bind_apply] at hok
  cases hdata : parseData biosdata (header file p).typeEvt (header file p).evtLogFrm
    (v ((file.drop (p + 2)).take 6)) file ⟨p + 9, (header file p).length - 9⟩ with
  | error e =>
    rw [hdata] at hok
    cases hok
  | ok result =>
    obtain ⟨event', c'⟩ := result
    simp only [hdata, bind_apply] at hok
    have hevent : event' = event := by
      cases hseek : seekCurShift file c' with
      | error e =>
        rw [hseek] at hok
        cases hok
      | ok _ =>
        rw [hseek] at hok
        cases hok
        rfl
    rw [← hevent]
    exact typeEvt_of_parseData hdata

theorem Record.typeEvt_event (r : Record bios) :
    r.event.map Event.typeEvt =
      if (formatBytes r.header.evtLogFrm).isSome ∧ r.header.typeEvt ∈ allEvents then some r.header.typeEvt
      else none :=
  typeEvt_of_step (r.step_eq (.inl rfl) (List.append_nil r.bytes).symm : step (some bios) r.bytes 0 = _)

theorem eventStatistics_foldl (toPrint : List ℤ) (events : List Event) (r : Report) (t : ℕ) :
    (events.foldl (Report.count toPrint) r).eventStatistics t =
      r.eventStatistics t + (events.map Event.typeEvt).count t := by
  induction events generalizing r with
  | nil => rfl
  | cons e events ih =>
    rw [List.foldl_cons, ih, Report.count_eventStatistics, List.map_cons, List.count_cons]
    simp only [beq_iff_eq]
    omega

theorem count_events (log : List (Record bios)) {t : ℕ} (ht : t ∈ allEvents) :
    ((log.map Record.event).reduceOption.map Event.typeEvt).count t =
      log.countP fun r ↦ r.header.typeEvt = t ∧ (formatBytes r.header.evtLogFrm).isSome := by
  induction log with
  | nil => rfl
  | cons r log ih =>
    rw [List.map_cons, List.countP_cons, ← ih]
    have htype := r.typeEvt_event
    cases hevent : r.event with
    | none =>
      have hother : ¬ (r.header.typeEvt = t ∧ (formatBytes r.header.evtLogFrm).isSome) := by
        rintro ⟨rfl, hformat⟩
        rw [hevent, if_pos ⟨hformat, ht⟩] at htype
        cases htype
      rw [List.reduceOption_cons_of_none, if_neg (mt of_decide_eq_true hother), Nat.add_zero]
    | some e =>
      rw [hevent, Option.map_some] at htype
      split_ifs at htype with hknown
      have heq : e.typeEvt = r.header.typeEvt := Option.some.inj htype
      rw [List.reduceOption_cons_of_some, List.map_cons, List.count_cons, heq]
      simp only [beq_iff_eq, hknown.1, and_true, decide_eq_true_eq]

theorem eventStatistics_report (p : Parameters) (log : List (Record bios)) {t : ℕ} (ht : t ∈ allEvents) :
    (report p (log.map Record.event)).eventStatistics t =
      log.countP fun r ↦ r.header.typeEvt = t ∧ (formatBytes r.header.evtLogFrm).isSome := by
  rw [report, eventStatistics_foldl, count_events log ht]
  exact Nat.zero_add _

/-! ## The log -/

theorem step_of_end (h : file.drop start = 0xff :: rest) : step biosdata file start = .error .endOfLog := by
  have htype : (header file start).typeEvt = 0xff := by
    have hbyte : file.getD start 0 = 0xff := by
      rw [List.getD_eq_getElem?_getD, ← List.head?_drop, h]
      rfl
    exact congrArg UInt8.toNat hbyte
  have hlength := congrArg List.length h
  rw [List.length_drop, List.length_cons] at hlength
  obtain ⟨event, hevent⟩ := exists_step_eq biosdata (header file start)
  rw [hevent file start rfl, if_pos ⟨by omega, htype⟩]

theorem printEvents_eq (log : List (Record bios))
    (hbios : biosdata = some bios ∨ biosdata = none ∧ ∀ r ∈ log, ¬ r.header.IsPci)
    (h : file.drop start = encode log ++ rest) :
    printEvents biosdata file (log.length + 1) start = ⟨starts start log, log.map Record.event, some .endOfLog⟩ := by
  induction log generalizing start with
  | nil =>
    have hend : step biosdata file start = .error .endOfLog := step_of_end h
    exact walk_of_error hend
  | cons r log ih =>
    rw [encode, List.append_assoc] at h
    have hhead : biosdata = some bios ∨ biosdata = none ∧ ¬ r.header.IsPci :=
      hbios.imp_right fun hnone ↦ ⟨hnone.1, hnone.2 r List.mem_cons_self⟩
    have htail : biosdata = some bios ∨ biosdata = none ∧ ∀ r ∈ log, ¬ r.header.IsPci :=
      hbios.imp_right fun hnone ↦ ⟨hnone.1, fun r' hr' ↦ hnone.2 r' (List.mem_cons_of_mem _ hr')⟩
    have hrest : file.drop (start + r.bytes.length) = encode log ++ rest := by
      rw [← List.drop_drop, h, List.drop_left]
    rw [printEvents, List.length_cons, walk_of_ok (r.step_eq hhead h)]
    have hnext := ih htail hrest
    unfold printEvents at hnext
    rw [hnext]
    rfl

theorem prescribed_none_le (h : Header) : prescribed none h ≤ prescribed (some bios) h := by
  have hevent : eventBytes none h.typeEvt ≤ eventBytes (some bios) h.typeEvt := by
    unfold eventBytes
    split
    · exact Nat.le_refl _
    · exact Nat.zero_le _
    · exact Nat.le_refl _
  unfold prescribed dataBytes
  cases formatBytes h.evtLogFrm with
  | none => exact Nat.le_refl _
  | some n => exact Nat.add_le_add_left (Nat.add_le_add_left hevent n) 9

theorem Record.step_of_isPci (r : Record bios) (hpci : r.header.IsPci) (h : file.drop start = r.bytes ++ rest) :
    step none file start = .error .indexError := by
  have hheader := r.header_eq h
  obtain ⟨htype, hle⟩ := r.complete h
  have hcomplete : Complete none file start := ⟨htype, (Nat.add_le_add_left (prescribed_none_le _) _).trans hle⟩
  apply step_of_not_readable hcomplete
  rw [hheader]
  exact not_or_intro Bool.false_ne_true (not_not_intro hpci)

/-- With a PCI error in the log, the end of the log is not reached in a file. -/
theorem stop_ne_endOfLog {log : List (Record bios)} (hpci : ∃ r ∈ log, r.header.IsPci)
    (h : file.drop start = encode log ++ rest) (fuel : ℕ) :
    (printEvents none file fuel start).stop ≠ some .endOfLog := by
  induction log generalizing start fuel with
  | nil =>
    obtain ⟨r, hr, -⟩ := hpci
    cases hr
  | cons r log ih =>
    cases fuel with
    | zero =>
      intro hstop
      cases hstop
    | succ fuel =>
      rw [encode, List.append_assoc] at h
      by_cases hhead : r.header.IsPci
      · rw [printEvents, walk_of_error (r.step_of_isPci hhead h)]
        intro hstop
        cases hstop
      · have htail : ∃ r ∈ log, r.header.IsPci := by
          obtain ⟨r', hr', hpci'⟩ := hpci
          rcases List.mem_cons.mp hr' with rfl | hmem
          · exact absurd hpci' hhead
          · exact ⟨r', hmem, hpci'⟩
        have hrest : file.drop (start + r.bytes.length) = encode log ++ rest := by
          rw [← List.drop_drop, h, List.drop_left]
        rw [printEvents, walk_of_ok (r.step_eq (.inr ⟨rfl, hhead⟩) h)]
        exact ih htail hrest fuel

/-! ## The script -/

variable {cmdresp : List Char} {offset : ℕ} {memory : List UInt8} {log : List (Record bios)}

theorem decodes_of_eq {trace : Trace Stop (Option Event)}
    (h : trace = ⟨starts start log, log.map Record.event, some .endOfLog⟩) : Decodes log start trace := by
  subst h
  exact ⟨rfl, rfl, fun p t ht ↦ eventStatistics_report p log ht⟩

/-- What `-d` saves of a log that fits is the log. -/
theorem drop_zero_download (hmemory : memory.drop offset = encode log ++ rest) (hfits : (encode log).length ≤ 0x10000) :
    ((memory.drop offset).take 0x10000).drop 0 = encode log ++ rest.take (0x10000 - (encode log).length) := by
  rw [List.drop_zero, hmemory, List.take_append, List.take_of_length_le hfits]

theorem downloadNvram_eq (hnode : node cmdresp = some (bios, offset)) (memory : List UInt8) :
    downloadNvram cmdresp memory = some ((memory.drop offset).take 0x10000) := by
  rw [downloadNvram, hnode]
  rfl

theorem not_exact_of_isPci (hnode : node cmdresp = some (bios, offset))
    (hmemory : memory.drop offset = encode log ++ rest) (hfits : (encode log).length ≤ 0x10000)
    (hpci : ∃ r ∈ log, r.header.IsPci) (fuel : ℕ) : ¬ Exact cmdresp log offset memory fuel := by
  rintro ⟨-, file, hdownload, hoffline, -⟩
  obtain rfl := Option.some.inj ((downloadNvram_eq hnode memory).symm.trans hdownload)
  exact stop_ne_endOfLog hpci (drop_zero_download hmemory hfits) fuel hoffline.stop

/-- A log is decoded alike from the memory and from a file exactly where it has no PCI error. -/
theorem decoding_exact_iff (hnode : node cmdresp = some (bios, offset))
    (hmemory : memory.drop offset = encode log ++ rest) (hfits : (encode log).length ≤ 0x10000) :
    (∃ fuel, Exact cmdresp log offset memory fuel) ↔ ∀ r ∈ log, ¬ r.header.IsPci := by
  constructor
  · rintro ⟨fuel, hexact⟩ r hr hpci
    exact not_exact_of_isPci hnode hmemory hfits ⟨r, hr, hpci⟩ fuel hexact
  · intro hpci
    have honline := printEvents_eq log (.inl rfl) hmemory
    have hoffline := printEvents_eq log (.inr ⟨rfl, hpci⟩) (drop_zero_download hmemory hfits)
    refine ⟨log.length + 1, decodes_of_eq honline, _, downloadNvram_eq hnode memory, decodes_of_eq hoffline,
      fun p ↦ ?_⟩
    rw [readFile, readMemory, hnode, hoffline]
    change _ = output p (printEvents (some bios) memory (log.length + 1) offset)
    rw [honline]
    rfl

/-! ## Two logs -/

def bios204 : BiosVersion := ⟨true, "0ACIE".toList, some "204".toList, some "0000".toList⟩

def eccRecord : Record bios204 where
  bytes := [0x01, 14, 0x18, 0x02, 0x03, 0x04, 0x05, 0x06, 0x01, 0x0f, 0x00, 0x00, 0x01, 0x02]
  typeEvt_ne := by decide
  length_eq := by decide
  prescribed_le := by decide

/-- A record of another type, whose format is a counter. -/
def postRecord : Record bios204 where
  bytes := [0x08, 13, 0x18, 0x02, 0x03, 0x04, 0x05, 0x07, 0x02, 0x01, 0x00, 0x00, 0x80]
  typeEvt_ne := by decide
  length_eq := by decide
  prescribed_le := by decide

def pciRecord : Record bios204 where
  bytes := [0x09, 17, 0x18, 0x02, 0x03, 0x04, 0x05, 0x06, 0x01, 0x0f, 0x00, 0x00, 0x00, 0x00, 0x01, 0x02, 0x03]
  typeEvt_ne := by decide
  length_eq := by decide
  prescribed_le := by decide

/-- A memory with a log at a position. -/
def memoryAt (offset : ℕ) (log : List (Record bios)) : List UInt8 := List.replicate offset 0 ++ encode log

theorem drop_memoryAt (offset : ℕ) (log : List (Record bios)) :
    (memoryAt offset log).drop offset = encode log ++ [] := by
  rw [memoryAt, List.append_nil, List.drop_left' List.length_replicate]

theorem node_bios204 : node "\tVersion: 0ACIE204.0000".toList = some (bios204, 0xb60010 + 0xff000000) := by
  decide

theorem decoding_exact_ecc :
    ∃ fuel, Exact "\tVersion: 0ACIE204.0000".toList [eccRecord, postRecord] (0xb60010 + 0xff000000)
      (memoryAt (0xb60010 + 0xff000000) [eccRecord, postRecord]) fuel :=
  (decoding_exact_iff node_bios204 (drop_memoryAt _ _) (by decide)).mpr (by decide)

theorem pci_not_exact :
    node "\tVersion: 0ACIE204.0000".toList = some (bios204, 0xb60010 + 0xff000000) ∧
      (encode [pciRecord]).length ≤ 0x10000 ∧
      ¬ ∃ fuel, Exact "\tVersion: 0ACIE204.0000".toList [pciRecord] (0xb60010 + 0xff000000)
        (memoryAt (0xb60010 + 0xff000000) [pciRecord]) fuel := by
  refine ⟨node_bios204, by decide, ?_⟩
  rintro ⟨fuel, hexact⟩
  exact not_exact_of_isPci node_bios204 (drop_memoryAt _ _) (by decide) ⟨pciRecord, List.mem_cons_self, by decide⟩
    fuel hexact

end Vcass.Elog
