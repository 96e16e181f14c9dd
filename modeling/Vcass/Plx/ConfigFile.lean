import Mathlib.Algebra.Order.Ring.Nat
import Mathlib.Data.Nat.Log
import Mathlib.Logic.Function.Basic
import Vcass.Lib.Overlay
import Vcass.Lib.Script

/-!
# Configuration texts for the other machine: writing them

A text that is stored in a file of sysfs is copied into pages of its own, which are mapped for DMA. The
address and the size are published in the boot parameters, where the other machine finds them. The next
text replaces the pages; the old ones are given back with what the published size says about them.

## The pages

`get_order` takes bytes. It is given a number of pages, so its result is 0 for all texts that sysfs admits,
while a text of a whole page and its terminator need two pages.
-/

namespace Vcass.Plx.ConfigFile

open Overlay Script
open Function (update)

/-! ## The code -/

def pageSize : ℕ := 4096

/-- `DIV_ROUND_UP`. -/
def divRoundUp (n d : ℕ) : ℕ := (n + d - 1) / d

/-- `get_order`: a block of `2 ^ getOrder size` pages has room for `size` bytes. -/
def getOrder (size : ℕ) : ℕ := Nat.clog 2 (divRoundUp size pageSize)

def enomem : ℤ := 12

/-- What a call does to pages, in order. -/
inductive Event
  | getDmaPages (addr order : ℕ)
  /-- Bytes are written. -/
  | write (addr len : ℕ)
  | mapSingle (dma addr len : ℕ)
  /-- The other machine may read from now on. -/
  | publish (dma size : ℕ)
  | unmapSingle (dma len : ℕ)
  | freePages (addr order : ℕ)
  deriving DecidableEq, Repr

/-- The text of a call, and what the kernel answers. -/
structure Call where
  buf : List UInt8
  /-- The result of `__get_dma_pages`. -/
  pages : Option ℕ
  /-- The result of `dma_map_single`; it is none where `dma_mapping_error` says so. -/
  dma : Option ℕ
  deriving DecidableEq, Repr

/-- The three variables of a text, and the memory of the machine. -/
structure Buffer where
  dmaAddr : ℕ
  size : ℕ
  virtAddr : ℕ
  mem : ℕ → UInt8
  log : List Event

def Buffer.init (mem : ℕ → UInt8) : Buffer := ⟨0, 0, 0, mem, []⟩

def Buffer.record (s : Buffer) (es : List Event) : Buffer := { s with log := s.log ++ es }

/-- "if already exist, then delete" -/
def discard (s : Buffer) : Buffer :=
  if s.size ≠ 0 then
    { s.record [.unmapSingle s.dmaAddr s.size, .freePages s.virtAddr (getOrder (divRoundUp s.size pageSize))] with
      dmaAddr := 0
      virtAddr := 0
      size := 0 }
  else s

/-- Where the zero is written that ends the text. -/
def terminator (buf : List UInt8) : ℕ :=
  if buf.getLast? = some '\n'.toUInt8 then buf.length - 1 else buf.length

/-- The pages of a call: cleared, with the text and the zero behind it. -/
def fill (mem : ℕ → UInt8) (addr order : ℕ) (buf : List UInt8) : ℕ → UInt8 :=
  let cleared := overlay mem addr (List.replicate (2 ^ order * pageSize) 0)
  update (overlay cleared addr buf) (addr + terminator buf) 0

/-- `DMA_MAPPING_ERROR`. -/
def dmaMappingError : ℕ := 2 ^ 64 - 1

/-- `plx_set_config_file`. -/
def plxSetConfigFile (s : Buffer) (c : Call) : ℤ × Buffer :=
  let count := c.buf.length
  let pagesNum := divRoundUp (count + 1) pageSize
  let s := discard s
  match c.pages with
  | none => (-enomem, s)
  | some addr =>
    let order := getOrder pagesNum
    let dma := c.dma.getD dmaMappingError
    let size := (count + 1) % 2 ^ 32
    let mapping := c.dma.toList.map fun dma ↦ .mapSingle dma addr (count + 1)
    -- an error of the mapping is reported, and the address is published all the same
    (count, { s.record ([.getDmaPages addr order, .write addr count, .write (addr + terminator c.buf) 1] ++
        mapping ++ [.publish dma size]) with
      mem := fill s.mem addr order c.buf
      virtAddr := addr
      dmaAddr := dma
      size })

def run (s : Buffer) (calls : List Call) : Buffer := calls.foldl (fun s c ↦ (plxSetConfigFile s c).2) s

/-! ## What is asked of a run -/

/-- Pages that are allocated: the DMA address and the length of their mapping come last. -/
structure Live where
  addr : ℕ
  order : ℕ
  mapping : Option (ℕ × ℕ)
  deriving DecidableEq, Repr

/-- The bytes lie in the pages. -/
def Live.Holds (p : Live) (addr len : ℕ) : Prop := p.addr ≤ addr ∧ addr + len ≤ p.addr + 2 ^ p.order * pageSize

instance (p : Live) (addr len : ℕ) : Decidable (p.Holds addr len) := inferInstanceAs (Decidable (_ ∧ _))

/-- The pages that are allocated after an event. -/
def next : Option Live → Event → Option Live
  | _, .getDmaPages addr order => some ⟨addr, order, none⟩
  | live, .mapSingle dma _ len => live.map fun p ↦ { p with mapping := some (dma, len) }
  | live, .unmapSingle _ _ => live.map fun p ↦ { p with mapping := none }
  | _, .freePages _ _ => none
  | live, .write _ _ => live
  | live, .publish _ _ => live

/-- **The rules of the pages.** Bytes are written, mapped and published inside the allocation only; an
allocation is unmapped and freed, with its order, before the next one takes its place. -/
def Permitted : Option Live → Event → Prop
  | none, .getDmaPages _ _ => True
  | some p, .write addr len => p.Holds addr len
  | some p, .mapSingle _ addr len => p.mapping = none ∧ addr = p.addr ∧ p.Holds addr len
  | some p, .publish dma size => ∃ len, p.mapping = some (dma, len) ∧ size ≤ len
  | some p, .unmapSingle dma len => p.mapping = some (dma, len)
  | some p, .freePages addr order => p.mapping = none ∧ addr = p.addr ∧ order = p.order
  | _, _ => False

/-- The bytes that the other machine is offered. -/
def Buffer.published (s : Buffer) : List UInt8 := slice s.mem s.virtAddr s.size

/-- A text without one newline at its end. -/
def text (buf : List UInt8) : List UInt8 := buf.take (terminator buf)

/-- The call does not get pages, or they have room for the text and the zero and can be mapped. -/
def Call.Good (c : Call) : Prop := c.pages = none ∨ c.buf.length < pageSize ∧ c.dma.isSome

instance : DecidablePred Call.Good := fun _ ↦ inferInstanceAs (Decidable (_ ∨ _))

variable {s : Buffer} {c : Call} {live : Option Live}

/-! ## The rules -/

theorem getOrder_eq_zero {n : ℕ} (h : n ≤ pageSize) : getOrder (divRoundUp (n + 1) pageSize) = 0 := by
  apply Nat.clog_of_right_le_one
  simp only [divRoundUp, pageSize] at h ⊢
  omega

theorem terminator_le (buf : List UInt8) : terminator buf ≤ buf.length := by
  unfold terminator
  split_ifs <;> omega

/-- What is known of the pages, with the variables of a text. -/
def Agree (live : Option Live) (s : Buffer) : Prop :=
  s.size = 0 ∧ live = none ∨
    0 < s.size ∧ s.size ≤ pageSize ∧ live = some ⟨s.virtAddr, 0, some (s.dmaAddr, s.size)⟩

/-- The old pages are unmapped and freed. -/
theorem discard_spec (h : Agree live s) : ∃ es, (discard s).log = s.log ++ es ∧
    Monitored next Permitted live es ∧ es.foldl next live = none ∧
      (discard s).size = 0 ∧ (discard s).mem = s.mem := by
  unfold discard
  rcases h with ⟨hsize, rfl⟩ | ⟨hpos, hle, rfl⟩
  · rw [if_neg (not_not.mpr hsize)]
    exact ⟨[], (List.append_nil _).symm, trivial, rfl, hsize, rfl⟩
  · rw [if_pos (Nat.ne_of_gt hpos)]
    refine ⟨_, rfl, ?_, rfl, rfl, rfl⟩
    obtain ⟨n, hn⟩ : ∃ n, s.size = n + 1 := ⟨s.size - 1, by omega⟩
    have horder : getOrder (divRoundUp s.size pageSize) = 0 := by
      rw [hn]
      exact getOrder_eq_zero (by omega)
    exact ⟨rfl, ⟨rfl, rfl, horder⟩, trivial⟩

/-- **One call.** It keeps the rules if and only if it is good. -/
theorem plxSetConfigFile_spec (h : Agree live s) (hpos : 0 < c.buf.length) (hle : c.buf.length ≤ pageSize) :
    ∃ es, (plxSetConfigFile s c).2.log = s.log ++ es ∧ (Monitored next Permitted live es ↔ c.Good) ∧
      (c.Good → Agree (es.foldl next live) (plxSetConfigFile s c).2) := by
  obtain ⟨es, hlog, hmon, hlive, hsize, -⟩ := discard_spec h
  unfold plxSetConfigFile Call.Good
  cases hpages : c.pages with
  | none => exact ⟨es, hlog, by simp [hmon], fun _ ↦ .inl ⟨hsize, hlive⟩⟩
  | some addr =>
    have hterm := terminator_le c.buf
    have hmod : (c.buf.length + 1) % 2 ^ 32 = c.buf.length + 1 := Nat.mod_eq_of_lt (by simp [pageSize] at hle; omega)
    simp only [getOrder_eq_zero hle, hmod, Buffer.record, hlog, List.append_assoc]
    refine ⟨_, rfl, ?_, ?_⟩
    · rw [monitored_append, hlive]
      cases c.dma with
      | none => simp [Monitored, next, Permitted]
      | some dma =>
        simp [Monitored, next, Permitted, Live.Holds, hmon, pageSize] at hle ⊢
        omega
    · rintro (hnone | ⟨hlt, hdma⟩)
      · cases hnone
      · obtain ⟨dma, hdma⟩ := Option.isSome_iff_exists.mp hdma
        rw [List.foldl_append, hlive, hdma]
        exact .inr ⟨Nat.succ_pos _, hlt, rfl⟩

theorem log_prefix_call (s : Buffer) (c : Call) : s.log <+: (plxSetConfigFile s c).2.log := by
  have hdiscard : s.log <+: (discard s).log := by
    unfold discard
    split_ifs
    · exact List.prefix_append ..
    · exact List.prefix_refl _
  unfold plxSetConfigFile
  cases c.pages with
  | none => exact hdiscard
  | some addr => exact hdiscard.trans (List.prefix_append ..)

theorem log_prefix_run (s : Buffer) (calls : List Call) : s.log <+: (run s calls).log := by
  induction calls generalizing s with
  | nil => exact List.prefix_refl _
  | cons c calls ih => exact (log_prefix_call s c).trans (ih _)

/-- Every call of a run keeps the rules if and only if every call is good. -/
theorem run_spec {calls : List Call} (h : Agree live s)
    (hcount : ∀ c ∈ calls, 0 < c.buf.length ∧ c.buf.length ≤ pageSize) :
    ∃ es, (run s calls).log = s.log ++ es ∧ (Monitored next Permitted live es ↔ ∀ c ∈ calls, c.Good) := by
  induction calls generalizing s live with
  | nil => exact ⟨[], (List.append_nil _).symm, by simp [Monitored]⟩
  | cons c calls ih =>
    obtain ⟨hc, hcalls⟩ := List.forall_mem_cons.mp hcount
    obtain ⟨es, hlog, hmon, hagree⟩ := plxSetConfigFile_spec h hc.1 hc.2
    by_cases hgood : c.Good
    · obtain ⟨es', hlog', hmon'⟩ := ih (hagree hgood) hcalls
      refine ⟨es ++ es', ?_, ?_⟩
      · rw [← List.append_assoc, ← hlog]
        exact hlog'
      · rw [monitored_append, hmon, hmon', List.forall_mem_cons]
    · -- the rules are broken already, whatever the calls after this one do
      obtain ⟨es', hes'⟩ := log_prefix_run (plxSetConfigFile s c).2 calls
      refine ⟨es ++ es', ?_, ?_⟩
      · rw [← List.append_assoc, ← hlog]
        exact hes'.symm
      · rw [monitored_append, hmon, List.forall_mem_cons]
        simp [hgood]

/-! ## The text -/

theorem fill_text (mem : ℕ → UInt8) (addr order : ℕ) {i : ℕ} {buf : List UInt8} (hi : i ≤ terminator buf) :
    fill mem addr order buf (addr + i) = if i < terminator buf then buf.getD i 0 else 0 := by
  have hle := terminator_le buf
  unfold fill
  rcases Nat.lt_or_eq_of_le hi with hlt | rfl
  · rw [Function.update_of_ne (by omega), if_pos hlt, overlay_add, List.getD_eq_getElem?_getD,
      List.getElem?_eq_getElem (hlt.trans_le hle)]
    rfl
  · rw [Function.update_self, if_neg (Nat.lt_irrefl _)]

theorem fill_apply (mem : ℕ → UInt8) {addr order i : ℕ} {buf : List UInt8} (hi : i < 2 ^ order * pageSize) :
    fill mem addr order buf (addr + i) = if i < terminator buf then buf.getD i 0 else 0 := by
  by_cases hle : i ≤ terminator buf
  · exact fill_text mem addr order hle
  · -- behind the terminator the pages are as they were cleared
    have hlen : buf.length ≤ i := by
      unfold terminator at hle
      split_ifs at hle <;> omega
    rw [fill, Function.update_of_ne (by omega), if_neg (by omega), overlay_of_ge (by omega), overlay_add,
      List.getElem?_replicate_of_lt hi]
    rfl

/-- **What is published.** The text, and zeroes behind it: one, or two where a newline was cut. -/
theorem published_eq (s : Buffer) {addr : ℕ} (hpages : c.pages = some addr) (hlt : c.buf.length < pageSize) :
    (plxSetConfigFile s c).2.published =
      text c.buf ++ List.replicate (c.buf.length + 1 - terminator c.buf) 0 := by
  have hle := terminator_le c.buf
  have hmod : (c.buf.length + 1) % 2 ^ 32 = c.buf.length + 1 :=
    Nat.mod_eq_of_lt (by simp [pageSize] at hlt; omega)
  have hpub : (plxSetConfigFile s c).2.published =
      (List.range (c.buf.length + 1)).map fun i ↦ if i < terminator c.buf then c.buf.getD i 0 else 0 := by
    unfold plxSetConfigFile Buffer.published slice
    simp only [hpages, hmod, getOrder_eq_zero (Nat.le_of_lt hlt)]
    apply List.map_congr_left
    intro i hi
    exact fill_apply _ (by rw [List.mem_range] at hi; omega)
  rw [hpub]
  apply List.ext_getElem
  · simp [text]
    omega
  · intro i hi hi'
    rw [List.getElem_map, List.getElem_range, List.getElem_append]
    by_cases h : i < terminator c.buf
    · have hlen : i < (text c.buf).length := by
        rw [text, List.length_take]
        omega
      rw [if_pos h, dif_pos hlen]
      simp [text, List.getD_eq_getElem?_getD, h.trans_le hle]
    · have hlen : ¬ i < (text c.buf).length := by
        rw [text, List.length_take]
        omega
      rw [if_neg h, dif_neg hlen, List.getElem_replicate]

/-- **The shared texts.** In a run of calls with texts that sysfs admits, the rules of the pages are kept and
every text is published as it was given, if and only if every call that gets pages has a text of less than a
page and its pages can be mapped. -/
theorem config_files_iff (mem : ℕ → UInt8) {calls : List Call}
    (hcount : ∀ c ∈ calls, 0 < c.buf.length ∧ c.buf.length ≤ pageSize) :
    (Monitored next Permitted none (run (.init mem) calls).log ∧
      ∀ done c, done ++ [c] <+: calls → c.pages.isSome →
        (run (.init mem) (done ++ [c])).published =
          text c.buf ++ List.replicate (c.buf.length + 1 - terminator c.buf) 0) ↔
      ∀ c ∈ calls, c.Good := by
  have hinit : Agree none (.init mem) := .inl ⟨rfl, rfl⟩
  obtain ⟨es, hlog, hmon⟩ := run_spec hinit hcount
  rw [hlog, Buffer.init, List.nil_append, hmon]
  refine ⟨And.left, fun hgood ↦ ⟨hgood, fun done c hpre hpages ↦ ?_⟩⟩
  obtain ⟨addr, haddr⟩ := Option.isSome_iff_exists.mp hpages
  have hmem : c ∈ calls := hpre.subset (List.mem_append_right _ (List.mem_singleton_self c))
  rw [run, List.foldl_append]
  rcases hgood c hmem with hnone | ⟨hlt, -⟩
  · rw [hnone] at haddr
    cases haddr
  · exact published_eq _ haddr hlt

/-- A text, and the one that replaces it. -/
def twoTexts : List Call :=
  [⟨['a'.toUInt8, '\n'.toUInt8], some 0x10000, some 0x10000⟩, ⟨['b'.toUInt8], some 0x20000, some 0x20000⟩]

theorem second_text_published : Monitored next Permitted none (run (.init fun _ ↦ 0) twoTexts).log ∧
    (run (.init fun _ ↦ 0) twoTexts).published = ['b'.toUInt8, 0] := by
  have hboth := (@config_files_iff (fun _ ↦ 0) twoTexts (by decide)).mpr (by decide)
  exact ⟨hboth.1, hboth.2 [_] _ (List.prefix_refl _) rfl⟩

/-- A text as long as a page: its terminator lies behind the one page that was allocated. -/
def pageText : Call := ⟨List.replicate pageSize 'a'.toUInt8, some 0x10000, some 0x10000⟩

theorem page_text_overflows : ¬Monitored next Permitted none (run (.init fun _ ↦ 0) [pageText]).log := by
  have hlen : pageText.buf.length = pageSize := List.length_replicate
  have hcount : ∀ c ∈ [pageText], 0 < c.buf.length ∧ c.buf.length ≤ pageSize := by
    intro c hc
    rw [List.mem_singleton.mp hc, hlen]
    exact ⟨by decide, Nat.le_refl _⟩
  obtain ⟨es, hlog, hmon⟩ := @run_spec (.init fun _ ↦ 0) none [pageText] (.inl ⟨rfl, rfl⟩) hcount
  rw [hlog, Buffer.init, List.nil_append, hmon]
  intro hgood
  rcases hgood pageText (List.mem_singleton_self _) with hnone | ⟨hlt, -⟩
  · cases hnone
  · rw [hlen] at hlt
    exact Nat.lt_irrefl _ hlt

end Vcass.Plx.ConfigFile
