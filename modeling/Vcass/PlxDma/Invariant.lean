import Vcass.Lib.RingBuffer
import Vcass.PlxDma.System

/-!
# PLX DMA: the invariant of the descriptor ring

Behind the indices of the code are numbers that are never reduced: how many descriptors were written, made
valid, done, passed by a cleanup and freed. Each of these follows the one before it, and the first is less
than the size of the ring ahead of the last. So what an entry of the ring holds is decided by where its
number lies among them.
-/

namespace Vcass.PlxDma

open Conc RingBuffer RingCounter

/-! ## Counts -/

/-- Whether the last descriptor that was written is not valid yet. -/
def Prep.unset : Prep → ℕ
  | .prepared | .validate => 1
  | _ => 0

theorem Prep.unset_le_ahead (p : Prep) : p.unset ≤ p.ahead := by
  cases p with
  | prepared | validate => exact le_rfl
  | idle | space _ | full _ | program _ | advance _ | incHead => exact Nat.zero_le _

/-- Whether the last descriptor that was written is of a transaction that is not submitted. -/
def Prep.unsubmitted : Prep → ℕ
  | .advance _ | .prepared => 1
  | _ => 0

/-- How many descriptors are still to be written for the transaction. -/
def Prep.need : Prep → ℕ
  | .program n | .advance n => n.toNat
  | _ => 0

/-- How far `head` has come, as a number of descriptors. -/
def Sys.headNum (s : Sys) : ℕ := s.written.length - s.prep.ahead

/-- How many descriptors were made valid. -/
def Sys.validNum (s : Sys) : ℕ := s.written.length - s.prep.unset

/-- The prepared transaction has a descriptor, and the number of those to come is positive. -/
def Prep.Ok : Prep → ℕ → Prop
  | .idle, _ => True
  | .space n, _ | .full n, _ => 0 < n.toInt
  | .program n, _ => 0 < n.toNat
  | .advance n, written => 0 < n.toNat ∧ 0 < written
  | .prepared, written | .validate, written | .incHead, written => 0 < written

/-- Where a cleanup stands. At its end it has come to its `cached_head` or to a descriptor that was not
done when it began. -/
def Cleanup.Ok (passes freed done cleanDone cleanHead head : ℕ) : Cleanup → Prop
  | .idle => (cleanDone ≤ passes ∨ cleanHead ≤ passes) ∧ freed = passes
  | .loop i h =>
    i = slot ringSize passes ∧ h = slot ringSize cleanHead ∧ passes ≤ cleanHead ∧ cleanHead ≤ head
  | .again i h =>
    i = slot ringSize passes ∧ h = slot ringSize cleanHead ∧ passes < cleanHead ∧ cleanHead ≤ head
  | .stage i h =>
    i = slot ringSize passes ∧ h = slot ringSize cleanHead ∧ passes < cleanHead ∧ cleanHead ≤ head ∧
      passes < done
  | .store i => i = slot ringSize passes ∧ (cleanDone ≤ passes ∨ cleanHead ≤ passes)

/-- The indices of the code and the numbers behind them. -/
structure Places (s : Sys) : Prop where
  head : s.head = slot ringSize s.headNum
  lastTail : s.lastTail = slot ringSize s.freed
  hw : s.hw = slot ringSize s.completed.length
  freed_le : s.freed ≤ s.passes
  passes_le_done : s.passes ≤ s.completed.length
  passes_le_head : s.passes ≤ s.headNum
  done_le : s.completed.length ≤ s.validNum
  cleanDone_le : s.cleanDone ≤ s.completed.length
  room : s.written.length + s.prep.need < s.freed + ringSize
  prep : s.prep.Ok s.written.length
  cleanup : s.cleanup.Ok s.passes s.freed s.completed.length s.cleanDone s.cleanHead s.headNum

/-! ## Entries -/

/-- The descriptor in the entry of number `p`. -/
def DescAt (passes done valid written p : ℕ) (d : Desc) : Prop :=
  d = if passes ≤ p ∧ p < written then ⟨decide (done ≤ p ∧ p < valid), some p⟩ else ⟨false, none⟩

/-- What the submission of transaction `t` stores. -/
def Sub.tx (sub : Sub) (t : ℕ) : Tx := ⟨sub.cookie, if sub.callback then some t else none, some t⟩

/-- The `tx_array` entry of number `p`, when `k` transactions are passed. -/
def TxAt (subs : List Sub) (k p : ℕ) (x : Tx) : Prop :=
  (∃ t sub, k ≤ t ∧ subs[t]? = some sub ∧ sub.last = p ∧ x = sub.tx t) ∨
    ((∀ t sub, k ≤ t → subs[t]? = some sub → sub.last ≠ p) ∧ x = Tx.free)

/-- The submitted transactions, of which the first `k` are passed. -/
structure SubsOk (subs : List Sub) (k passes bound : ℕ) : Prop where
  le : k ≤ subs.length
  increasing : ∀ (i j : ℕ) (a b : Sub), i < j → subs[i]? = some a → subs[j]? = some b → a.last < b.last
  passed : ∀ (t : ℕ) (sub : Sub), t < k → subs[t]? = some sub → sub.last < passes
  pending : ∀ (t : ℕ) (sub : Sub), k ≤ t → subs[t]? = some sub → passes ≤ sub.last
  bound : ∀ sub ∈ subs, sub.last < bound
  cookie : ∀ sub ∈ subs, sub.cookie ≠ 0

/-! ## History -/

/-- The descriptors of a transaction come before its last one. -/
def WrittenOk (written : List ℕ) (subs : List Sub) : Prop :=
  ∀ p t, written[p]? = some t → t ≤ subs.length ∧ ∀ sub, subs[t]? = some sub → p ≤ sub.last

/-- What the callback stages have done. -/
structure Stages (subs : List Sub) (passed called : List ℕ) (cookie : ℕ) : Prop where
  passed_eq : passed = List.range passed.length
  called_eq : called = passed.filter fun t ↦ (subs.map Sub.callback).getD t false
  cookie_eq : cookie = (passed.getLast?.bind fun t ↦ subs[t]?.map Sub.cookie).getD dmaMinCookie

structure Inv (s : Sys) : Prop where
  places : Places s
  completed : s.completed = List.range s.completed.length
  desc : Window ringSize s.desc
    (DescAt s.passes s.completed.length s.validNum s.written.length) s.freed
  tx : Window ringSize s.tx (TxAt s.subs s.passed.length) s.freed
  subs : SubsOk s.subs s.passed.length s.passes (s.written.length - s.prep.unsubmitted)
  cookie : 0 < s.cookie
  written : WrittenOk s.written s.subs
  stages : Stages s.subs s.passed s.called s.completedCookie
  clobbered : s.clobbered = false

theorem Cleanup.Ok.mono {c : Cleanup} {passes freed done done' cleanDone cleanHead head head' : ℕ}
    (h : c.Ok passes freed done cleanDone cleanHead head) (hdone : done ≤ done') (hhead : head ≤ head') :
    c.Ok passes freed done' cleanDone cleanHead head' := by
  cases c with
  | idle => exact h
  | loop i k => exact ⟨h.1, h.2.1, h.2.2.1, h.2.2.2.trans hhead⟩
  | again i k => exact ⟨h.1, h.2.1, h.2.2.1, h.2.2.2.trans hhead⟩
  | stage i k =>
    exact ⟨h.1, h.2.1, h.2.2.1, h.2.2.2.1.trans hhead, lt_of_lt_of_le h.2.2.2.2 hdone⟩
  | store i => exact h

theorem SubsOk.mono {subs : List Sub} {k passes bound bound' : ℕ} (h : SubsOk subs k passes bound)
    (hle : bound ≤ bound') : SubsOk subs k passes bound' :=
  { h with bound := fun sub hsub ↦ lt_of_lt_of_le (h.bound sub hsub) hle }

/-! ## Index arithmetic -/

section Indices

variable {a b : ℕ} {n : BitVec 32}

theorem ringInc_slot (a : ℕ) : ringInc (slot ringSize a) = slot ringSize (a + 1) := by
  rw [ringInc, slot, slot, Nat.mod_add_mod]

/-- The count of free descriptors, of which one is always kept. -/
theorem ringCount_slot (hab : a ≤ b) (hlt : b < a + ringSize) :
    plxDmaRingCount (slot ringSize b) (slot ringSize a) = ringSize - 1 - (b - a) := by
  have ha := Nat.div_add_mod a ringSize
  have hb := Nat.div_add_mod b ringSize
  have halt : a % ringSize < ringSize := Nat.mod_lt _ (by decide)
  have hblt : b % ringSize < ringSize := Nat.mod_lt _ (by decide)
  rw [plxDmaRingCount, slot, slot]
  rw [ringSize] at *
  split_ifs with hle <;> omega

theorem toNat_eq_toInt (h : 0 < n.toInt) : (n.toNat : ℤ) = n.toInt := by
  rw [BitVec.toInt_eq_toNat_cond] at *
  split_ifs at * <;> omega

theorem toNat_sub_one (h : 0 < n.toNat) : (n - 1).toNat = n.toNat - 1 := by
  bv_omega

theorem sub_one_eq_zero_iff (h : 0 < n.toNat) : n - 1 = 0 ↔ n.toNat = 1 := by
  bv_omega

end Indices

/-! ## Entries by their numbers -/

section Entries

variable {passes passes' done done' valid valid' written written' p : ℕ} {d : Desc}

theorem descAt_used {b : Bool} (hin : passes ≤ p ∧ p < written) (hb : b = true ↔ done ≤ p ∧ p < valid) :
    DescAt passes done valid written p ⟨b, some p⟩ := by
  rw [DescAt, if_pos hin, Desc.mk.injEq]
  refine ⟨?_, rfl⟩
  rw [Bool.eq_iff_iff, hb, decide_eq_true_iff]

theorem descAt_free (hout : ¬(passes ≤ p ∧ p < written)) :
    DescAt passes done valid written p ⟨false, none⟩ := by
  rw [DescAt, if_neg hout]

theorem DescAt.eq_free (h : DescAt passes done valid written p d) (hout : ¬(passes ≤ p ∧ p < written)) :
    d = ⟨false, none⟩ := by
  rwa [DescAt, if_neg hout] at h

theorem DescAt.num_eq (h : DescAt passes done valid written p d) (hin : passes ≤ p ∧ p < written) :
    d.num = some p := by
  rw [DescAt, if_pos hin] at h
  rw [h]

theorem DescAt.valid_iff (h : DescAt passes done valid written p d) (hin : passes ≤ p ∧ p < written) :
    d.valid = true ↔ done ≤ p ∧ p < valid := by
  rw [DescAt, if_pos hin] at h
  rw [h, decide_eq_true_iff]

theorem DescAt.congr (h : DescAt passes done valid written p d)
    (hin : passes ≤ p ∧ p < written ↔ passes' ≤ p ∧ p < written')
    (hvalid : passes ≤ p → p < written → (done ≤ p ∧ p < valid ↔ done' ≤ p ∧ p < valid')) :
    DescAt passes' done' valid' written' p d := by
  by_cases hused : passes ≤ p ∧ p < written
  · obtain ⟨b, num⟩ := d
    obtain rfl : num = some p := h.num_eq hused
    exact descAt_used (hin.mp hused) ((h.valid_iff hused).trans (hvalid hused.1 hused.2))
  · rw [h.eq_free hused]
    exact descAt_free fun hused' ↦ hused (hin.mpr hused')

end Entries

theorem init_inv : Inv init where
  places := ⟨rfl, rfl, rfl, le_rfl, le_rfl, le_rfl, le_rfl, le_rfl, by decide, trivial, .inl le_rfl, rfl⟩
  completed := rfl
  desc p _ _ := descAt_free fun h ↦ Nat.not_lt_zero p h.2
  tx p _ _ := .inr ⟨fun t sub _ h ↦ absurd h (by simp [init]), rfl⟩
  subs := by
    constructor <;> simp [init]
  cookie := by decide
  written p t h := absurd h (by simp [init])
  stages := ⟨rfl, rfl, rfl⟩
  clobbered := rfl

end Vcass.PlxDma
