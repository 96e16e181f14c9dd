import Vcass.Lib.Interference
import Vcass.BlockIo.Mailbox.System

/-!
# Block I/O: the command handshake

A command should stay in its byte until the frontend has handled it, and the acknowledgement that ends a wait should be
that of the command the wait is for (`Handshake`). The code does not see to it. The frontend acknowledges a command
before it clears the byte, so that a command written in answer to the acknowledgement is cleared along with the old
one; and a wait takes any acknowledgement it finds, be it that of an earlier command.

It goes well as long as every command is written into a byte that is empty, an awaited one while no acknowledgement
stands in the page, and any other one while nobody waits for that disk (`Free`).
-/

namespace Vcass.BlockIo.Mailbox

open Conc
open Function (update)

/-- No command left its byte before it was handled, and every wait got its own acknowledgement. -/
def Handshake (s : Shared) : Prop := s.lost = [] ∧ ∀ x ∈ s.accepted, x.2 = some x.1

/-- A command is written only where it does no harm. Clearing the byte is not writing a command. -/
def Free (s : Shared) : Op → Prop
  | .writeCommand i command => command = .none ∨ ((s.devs i).command = .none ∧
      if command.awaited then (s.devs i).commandAck = .none else s.waiting i = none)
  | _ => True

instance (s : Shared) : (o : Op) → Decidable (Free s o)
  | .writeCommand i command => inferInstanceAs (Decidable (command = .none ∨ ((s.devs i).command = .none ∧
      if command.awaited then (s.devs i).commandAck = .none else s.waiting i = none)))
  | .readCommand _ | .switchCommand _ | .task _ _ | .readStatus _ | .writeStatus _ _ | .report _ _ | .readAck _
  | .writeAck _ _ | .waitAck _ _ | .pages | .ask _ | .setPages _ | .diskState _ | .diskCreate _ | .diskStart _
  | .diskStop _ | .diskDestroy _ => isTrue trivial

/-- The first operation of a program. -/
def firstOp {α : Type} : MProg α → Option Op
  | .ret _ => none
  | .act o _ => some o

/-- The operation that a step performs. -/
def nextOp (s : Sys) : Label → Option Op
  | .ioctl _ => s.ioctl.bind firstOp
  | .ftb _ => s.ftb.bind firstOp
  | .probe _ => s.probe.bind firstOp
  | _ => none

/-- The step writes a command only where it does no harm. -/
def FreeStep (s : Sys) (l : Label) : Prop := ∀ o ∈ nextOp s l, Free s.shared o

instance (s : Sys) (l : Label) : Decidable (FreeStep s l) :=
  inferInstanceAs (Decidable (∀ o ∈ nextOp s l, Free s.shared o))

/-! ## The invariant -/

/-- Between any two operations. A command that was handled is in its byte only until the frontend clears it, and while
a wait goes on, nothing else is in the byte and nothing else can be acknowledged. -/
structure Good (s : Shared) : Prop where
  handshake : Handshake s
  command : ∀ i, s.current i = none ↔ (s.devs i).command = .none
  lt : ∀ i m, s.current i = some m → m < s.issued
  handled_lt : ∀ m ∈ s.handled, m < s.issued
  unique : ∀ i j m, s.current i = some m → s.current j = some m → i = j
  fresh : ∀ i m, s.current i = some m → m ∈ s.handled → s.serving i = some m
  serving : ∀ i m, s.serving i = some m → s.current i = some m
  alone : ∀ i n, s.waiting i = some n → ∀ m, s.current i = some m → m = n
  ack : ∀ i n, s.waiting i = some n → (s.devs i).commandAck ≠ .none → s.ackOf i = some n

/-- The backend does not touch a command that is in its byte. -/
structure ProbeRely (s s' : Shared) : Prop where
  current : ∀ i m, s.current i = some m → s'.current i = some m
  serving : s'.serving = s.serving
  handled : s'.handled = s.handled

/-- Nobody else begins or ends a wait. -/
def IoctlRely (s s' : Shared) : Prop := s'.waiting = s.waiting

theorem ProbeRely.isRely : Prog.IsRely ProbeRely where
  refl _ := ⟨fun _ _ h ↦ h, rfl, rfl⟩
  trans h h' := ⟨fun i m hm ↦ h'.current i m (h.current i m hm), h'.serving.trans h.serving,
    h'.handled.trans h.handled⟩

theorem IoctlRely.isRely : Prog.IsRely IoctlRely where
  refl _ := rfl
  trans h h' := h'.trans h

theorem Good.servingNone {s : Shared} {i : ℕ} (h : Good s) (hi : (s.devs i).command = .none) :
    s.current i = none ∧ s.serving i = none := by
  have hcur := (h.command i).mpr hi
  refine ⟨hcur, ?_⟩
  cases hserv : s.serving i with
  | none => rfl
  | some m => exact absurd ((h.serving i m hserv).symm.trans hcur) (by simp)

/-! ## The operations -/

section Ops

variable {s s' : Shared} {i n : ℕ} {c : ℤ}

theorem Good.frame (h : Good s) (hcommand : ∀ i, (s'.devs i).command = (s.devs i).command)
    (hack : ∀ i, (s'.devs i).commandAck = (s.devs i).commandAck) (hissued : s'.issued = s.issued)
    (hcurrent : s'.current = s.current) (hserving : s'.serving = s.serving) (hackOf : s'.ackOf = s.ackOf)
    (hwaiting : s'.waiting = s.waiting) (hhandled : s'.handled = s.handled) (hlost : s'.lost = s.lost)
    (haccepted : s'.accepted = s.accepted) : Good s' := by
  constructor <;> simp only [Handshake, hcommand, hack, hissued, hcurrent, hserving, hackOf, hwaiting, hhandled, hlost,
    haccepted]
  · exact h.handshake
  · exact h.command
  · exact h.lt
  · exact h.handled_lt
  · exact h.unique
  · exact h.fresh
  · exact h.serving
  · exact h.alone
  · exact h.ack

theorem Good.writeStatus (h : Good s) (err : ℤ) : Good (s.writeStatus i err) := by
  refine h.frame (fun j ↦ ?_) (fun j ↦ ?_) rfl rfl rfl rfl rfl rfl rfl rfl
  all_goals
    rw [Shared.writeStatus]
    by_cases hj : j = i
    · rw [hj]
      simp
    · simp [Function.update_of_ne hj]

theorem command_writeAck (ack : Command) (j : ℕ) : ((s.writeAck i ack).devs j).command = (s.devs j).command := by
  by_cases hj : j = i
  · rw [hj]
    simp [Shared.writeAck]
  · simp [Shared.writeAck, Function.update_of_ne hj]

theorem commandAck_writeCommand (command : Command) (j : ℕ) :
    ((s.writeCommand i command).devs j).commandAck = (s.devs j).commandAck := by
  by_cases hj : j = i <;> simp [Shared.writeCommand, hj]

theorem Good.clearAck (h : Good s) : Good (s.writeAck i .none) := by
  refine ⟨h.handshake, fun j ↦ by rw [command_writeAck]; exact h.command j, h.lt, h.handled_lt, h.unique, h.fresh,
    h.serving, h.alone, fun j n hw hack ↦ ?_⟩
  by_cases hj : j = i
  · subst hj
    exact absurd (by simp [Shared.writeAck]) hack
  · simp only [Shared.writeAck, Function.update_of_ne hj] at hack ⊢
    exact h.ack j n hw hack

theorem Good.writeAck {m : ℕ} {task : Command} (h : Good s) (hserv : s.serving i = some m) (htask : task ≠ .none) :
    Good (s.writeAck i task) := by
  refine ⟨h.handshake, fun j ↦ by rw [command_writeAck]; exact h.command j, h.lt, h.handled_lt, h.unique, h.fresh,
    h.serving, h.alone, fun j n hw hack ↦ ?_⟩
  by_cases hj : j = i
  · subst hj
    simp only [Shared.writeAck, Function.update_self, if_neg htask]
    rw [hserv, h.alone j n hw m (h.serving j m hserv)]
  · simp only [Shared.writeAck, Function.update_of_ne hj] at hack ⊢
    exact h.ack j n hw hack

theorem Good.serve (h : Good s) : Good (s.serve i) := by
  refine ⟨h.handshake, h.command, h.lt, h.handled_lt, h.unique, fun j m hj hm ↦ ?_, fun j m hj ↦ ?_, h.alone, h.ack⟩
  · change s.current j = some m at hj
    by_cases hji : j = i
    · subst hji
      simp [Shared.serve, hj]
    · simpa [Shared.serve, hji] using h.fresh j m hj hm
  · by_cases hji : j = i
    · subst hji
      simpa [Shared.serve] using hj
    · simp only [Shared.serve, Function.update_of_ne hji] at hj
      exact h.serving j m hj

theorem Good.report (h : Good s) (err : ℤ) : Good (s.report i err) := by
  have hstatus : Good (s.writeStatus i err) := h.writeStatus err
  have hmem {m : ℕ} : m ∈ (s.report i err).handled ↔ m ∈ s.handled ∨ s.serving i = some m := by
    simp [Shared.report]
  refine ⟨h.handshake, hstatus.command, h.lt, fun m hm ↦ ?_, h.unique, fun j m hj hm ↦ ?_, h.serving, h.alone,
    hstatus.ack⟩
  · rcases hmem.mp hm with hm | hm
    · exact h.handled_lt m hm
    · exact h.lt i m (h.serving i m hm)
  · rcases hmem.mp hm with hm | hm
    · exact h.fresh j m hj hm
    · obtain rfl := h.unique j i m hj (h.serving i m hm)
      exact hm

theorem Good.clear {m : ℕ} (h : Good s) (hserv : s.serving i = some m) (hhandled : m ∈ s.handled) :
    Good (s.writeCommand i .none) := by
  have hcur := h.serving i m hserv
  have hlost : s.unhandled i = [] := by simp [Shared.unhandled, hcur, hhandled]
  have hcurrent (j : ℕ) : (s.writeCommand i .none).current j = if j = i then none else s.current j := by
    by_cases hj : j = i <;> simp [Shared.writeCommand, hj]
  have hserving (j : ℕ) : (s.writeCommand i .none).serving j = if j = i then none else s.serving j := by
    by_cases hj : j = i <;> simp [Shared.writeCommand, hj]
  refine ⟨⟨?_, h.handshake.2⟩, fun j ↦ ?_, fun j m hj ↦ ?_, fun m hm ↦ (h.handled_lt m hm).trans (Nat.lt_succ_self _),
    fun j k m hj hk ↦ ?_, fun j m hj hm ↦ ?_, fun j m hj ↦ ?_, fun j n hw m hj ↦ ?_, fun j n hw ↦ ?_⟩
  · show s.lost ++ s.unhandled i = []
    rw [hlost, h.handshake.1, List.append_nil]
  · rw [hcurrent]
    by_cases hj : j = i
    · simp [Shared.writeCommand, hj]
    · simpa [Shared.writeCommand, hj] using h.command j
  · rw [hcurrent] at hj
    split at hj
    · simp at hj
    · exact (h.lt j m hj).trans (Nat.lt_succ_self _)
  · rw [hcurrent] at hj hk
    split at hj <;> split at hk
    any_goals simp_all
    exact h.unique j k m hj hk
  · rw [hcurrent] at hj
    rw [hserving]
    split at hj
    · simp at hj
    · rw [if_neg ‹_›]
      exact h.fresh j m hj hm
  · rw [hserving] at hj
    rw [hcurrent]
    split at hj
    · simp at hj
    · rw [if_neg ‹_›]
      exact h.serving j m hj
  · rw [hcurrent] at hj
    split at hj
    · simp at hj
    · exact h.alone j n hw m hj
  · rw [commandAck_writeCommand]
    exact h.ack j n hw

theorem Good.writeCommand {command : Command} (h : Good s) (hne : command ≠ .none)
    (hfree : Free s (.writeCommand i command)) :
    Good (s.writeCommand i command) ∧ ProbeRely s (s.writeCommand i command) := by
  obtain ⟨hempty, hfree⟩ := hfree.resolve_left hne
  obtain ⟨hcur, hserv⟩ := h.servingNone hempty
  have hlost : s.unhandled i = [] := by simp [Shared.unhandled, hcur]
  have hcurrent (j : ℕ) :
      (s.writeCommand i command).current j = if j = i then some s.issued else s.current j := by
    by_cases hj : j = i <;> simp [Shared.writeCommand, hj, hne]
  have hserving : (s.writeCommand i command).serving = s.serving := by
    rw [← Function.update_eq_self i s.serving, hserv]
    simp [Shared.writeCommand]
  have hwaiting {j n : ℕ} (hw : (s.writeCommand i command).waiting j = some n) :
      (j = i ∧ command.awaited = true ∧ n = s.issued) ∨ (s.waiting j = some n ∧ j ≠ i) := by
    simp only [Shared.writeCommand] at hw
    split at hw
    case isTrue ha =>
      by_cases hj : j = i
      · subst hj
        rw [Function.update_self, Option.some_inj] at hw
        exact .inl ⟨rfl, ha, hw.symm⟩
      · rw [Function.update_of_ne hj] at hw
        exact .inr ⟨hw, hj⟩
    case isFalse ha =>
      rw [if_neg ha] at hfree
      refine .inr ⟨hw, ?_⟩
      rintro rfl
      exact absurd (hw.symm.trans hfree) (by simp)
  refine ⟨⟨⟨?_, h.handshake.2⟩, fun j ↦ ?_, fun j m hj ↦ ?_,
    fun m hm ↦ (h.handled_lt m hm).trans (Nat.lt_succ_self _), fun j k m hj hk ↦ ?_, fun j m hj hm ↦ ?_,
    fun j m hj ↦ ?_, fun j n hw m hj ↦ ?_, fun j n hw ↦ ?_⟩, fun j m hj ↦ ?_, hserving, rfl⟩
  · show s.lost ++ s.unhandled i = []
    rw [hlost, h.handshake.1, List.append_nil]
  · rw [hcurrent]
    by_cases hj : j = i
    · simp [Shared.writeCommand, hj, hne]
    · simpa [Shared.writeCommand, hj] using h.command j
  · rw [hcurrent] at hj
    split at hj
    · rw [← Option.some_inj.mp hj]
      exact Nat.lt_succ_self _
    · exact (h.lt j m hj).trans (Nat.lt_succ_self _)
  · rw [hcurrent] at hj hk
    split at hj <;> split at hk
    · simp_all
    · exact absurd (h.lt k m hk) (by simp [← Option.some_inj.mp hj])
    · exact absurd (h.lt j m hj) (by simp [← Option.some_inj.mp hk])
    · exact h.unique j k m hj hk
  · rw [hcurrent] at hj
    rw [hserving]
    split at hj
    · exact absurd (h.handled_lt m hm) (by simp [← Option.some_inj.mp hj])
    · exact h.fresh j m hj hm
  · rw [hserving] at hj
    have hcurj := h.serving j m hj
    rw [hcurrent, if_neg]
    · exact hcurj
    · rintro rfl
      exact absurd (hcurj.symm.trans hcur) (by simp)
  · rw [hcurrent] at hj
    rcases hwaiting hw with ⟨rfl, -, rfl⟩ | ⟨hw, hji⟩
    · rw [if_pos rfl] at hj
      exact (Option.some_inj.mp hj).symm
    · rw [if_neg hji] at hj
      exact h.alone j n hw m hj
  · rw [commandAck_writeCommand]
    rcases hwaiting hw with ⟨rfl, ha, rfl⟩ | ⟨hw, -⟩
    · rw [if_pos ha] at hfree
      exact fun hnot ↦ absurd hfree hnot
    · exact h.ack j n hw
  · rw [hcurrent, if_neg]
    · exact hj
    · rintro rfl
      exact absurd (hj.symm.trans hcur) (by simp)

theorem Good.endWait (h : Good s) : Good (s.endWait i) := by
  have hwaiting {j n : ℕ} (hw : (s.endWait i).waiting j = some n) : s.waiting j = some n := by
    by_cases hj : j = i
    · subst hj
      simp [Shared.endWait] at hw
    · simpa [Shared.endWait, hj] using hw
  exact ⟨h.handshake, h.command, h.lt, h.handled_lt, h.unique, h.fresh, h.serving,
    fun j n hw ↦ h.alone j n (hwaiting hw), fun j n hw ↦ h.ack j n (hwaiting hw)⟩

theorem Good.accept (h : Good s) (hw : s.waiting i = some n) (hack : (s.devs i).commandAck ≠ .none) :
    Good (s.accept i n) := by
  have hend := h.endWait (i := i)
  refine ⟨⟨h.handshake.1, fun x hx ↦ ?_⟩, hend.command, hend.lt, hend.handled_lt, hend.unique, hend.fresh,
    hend.serving, hend.alone, hend.ack⟩
  rcases List.mem_append.mp hx with hx | hx
  · exact h.handshake.2 x hx
  · rw [List.mem_singleton.mp hx]
    exact h.ack i n hw hack

end Ops

/-! ## The programs -/

/-- What an operation does if commands are written only where they do no harm. -/
def semFree (s : Shared) (o : Op) (c : ℤ) : Option (Res o × Shared) := if Free s o then sem s o c else none

theorem semFree_eq {s s' : Shared} {o : Op} {c : ℤ} {r : Res o} (h : semFree s o c = some (r, s')) :
    Free s o ∧ sem s o c = some (r, s') := by
  rw [semFree] at h
  split at h
  · exact ⟨‹_›, h⟩
  · simp at h

abbrev ProbeSafe {α : Type} (Q : α → Shared → Prop) (p : MProg α) (s : Shared) : Prop :=
  Prog.Safe semFree Good ProbeRely IoctlRely Q p s

abbrev IoctlSafe {α : Type} (Q : α → Shared → Prop) (p : MProg α) (s : Shared) : Prop :=
  Prog.Safe semFree Good IoctlRely ProbeRely Q p s

/-- `vcablk_bcknd_ftb_work` keeps off the waits as well. -/
def FtbGuar (s s' : Shared) : Prop := ProbeRely s s' ∧ IoctlRely s s'

/-- The operations of the backend that begin and end no wait. -/
def Plain : Op → Prop
  | .switchCommand _ => False
  | .report _ _ => False
  | .writeCommand _ command => command ≠ .none ∧ command.awaited = false
  | .writeAck _ ack => ack = .none
  | .waitAck _ _ => False
  | _ => True

section Programs

variable {s s' : Shared} {i n m : ℕ} {α : Type}

theorem Plain.step {o : Op} {c : ℤ} {r : Res o} (ho : Plain o) (h : Good s) (hsem : semFree s o c = some (r, s')) :
    Good s' ∧ FtbGuar s s' := by
  obtain ⟨hfree, hsem⟩ := semFree_eq hsem
  have hrefl : FtbGuar s s := ⟨ProbeRely.isRely.refl s, rfl⟩
  have hdisk (j : ℕ) (state : Option DiskState) : Good (s.setDisk j state) ∧ FtbGuar s (s.setDisk j state) :=
    ⟨h.frame (fun _ ↦ rfl) (fun _ ↦ rfl) rfl rfl rfl rfl rfl rfl rfl rfl, ⟨fun _ _ hm ↦ hm, rfl, rfl⟩, rfl⟩
  cases o with
  | switchCommand j => exact ho.elim
  | report j err => exact ho.elim
  | waitAck j n => exact ho.elim
  | writeCommand j command =>
    obtain ⟨-, rfl⟩ := Prod.mk.inj (Option.some_inj.mp hsem)
    obtain ⟨hgood, hguar⟩ := h.writeCommand ho.1 hfree
    refine ⟨hgood, hguar, ?_⟩
    simp [IoctlRely, Shared.writeCommand, ho.2]
  | writeStatus j err =>
    obtain ⟨-, rfl⟩ := Prod.mk.inj (Option.some_inj.mp hsem)
    exact ⟨h.writeStatus err, ⟨fun _ _ hm ↦ hm, rfl, rfl⟩, rfl⟩
  | writeAck j ack =>
    obtain ⟨-, rfl⟩ := Prod.mk.inj (Option.some_inj.mp hsem)
    obtain rfl : ack = .none := ho
    exact ⟨h.clearAck, ⟨fun _ _ hm ↦ hm, rfl, rfl⟩, rfl⟩
  | setPages mapped =>
    obtain ⟨-, rfl⟩ := Prod.mk.inj (Option.some_inj.mp hsem)
    exact ⟨h.frame (fun _ ↦ rfl) (fun _ ↦ rfl) rfl rfl rfl rfl rfl rfl rfl rfl, ⟨fun _ _ hm ↦ hm, rfl, rfl⟩, rfl⟩
  | diskCreate j =>
    simp only [sem] at hsem
    split at hsem
    all_goals
      obtain ⟨-, rfl⟩ := Prod.mk.inj (Option.some_inj.mp hsem)
    · exact hdisk j _
    · exact ⟨h, hrefl⟩
  | diskStart j =>
    simp only [sem] at hsem
    split at hsem
    · obtain ⟨-, rfl⟩ := Prod.mk.inj (Option.some_inj.mp hsem)
      exact ⟨h, hrefl⟩
    · split at hsem
      all_goals
        obtain ⟨-, rfl⟩ := Prod.mk.inj (Option.some_inj.mp hsem)
      · exact hdisk j _
      · exact ⟨h, hrefl⟩
  | diskStop j =>
    obtain ⟨-, rfl⟩ := Prod.mk.inj (Option.some_inj.mp hsem)
    exact hdisk j _
  | diskDestroy j =>
    obtain ⟨-, rfl⟩ := Prod.mk.inj (Option.some_inj.mp hsem)
    exact hdisk j none
  | _ =>
    obtain ⟨-, rfl⟩ := Prod.mk.inj (Option.some_inj.mp hsem)
    exact ⟨h, hrefl⟩

theorem ioctl_safe {p : MProg α} (hp : p.Only Plain) : IoctlSafe (fun _ _ ↦ True) p s := by
  induction p generalizing s with
  | ret a => exact fun _ _ _ ↦ trivial
  | act o k ih =>
    intro s' _ hI c r s'' hsem
    obtain ⟨hgood, hguar⟩ := hp.1.step hI hsem
    exact ⟨hgood, hguar.1, ih r (hp.2 r)⟩

/-! ### What the backend does without a wait -/

section Plain

attribute [local simp] Plain Command.awaited

theorem vcablkBckndAddToDevpage_plain {lim : Limits} : (vcablkBckndAddToDevpage lim i).Only Plain := by
  rw [vcablkBckndAddToDevpage]
  split
  · trivial
  · refine ⟨by simp, fun _ ↦ ⟨by simp, fun state ↦ ?_⟩⟩
    dsimp only [Prog.bind]
    split
    · simp
    · trivial

theorem vcablkBckndCreate_plain {lim : Limits} : (vcablkBckndCreate lim i).Only Plain := by
  rw [vcablkBckndCreate]
  split
  · trivial
  · refine ⟨by simp, fun state ↦ ?_⟩
    dsimp only [Prog.bind]
    split
    · trivial
    · refine ⟨by simp, fun err ↦ ?_⟩
      dsimp only [Prog.bind]
      split
      · trivial
      · refine ⟨by simp, fun open' ↦ ?_⟩
        dsimp only [Prog.bind]
        split
        · exact vcablkBckndAddToDevpage_plain
        · trivial

theorem vcablkBckndAddWaiting_plain {lim : Limits} {is : List ℕ} : (vcablkBckndAddWaiting lim is).Only Plain := by
  induction is with
  | nil => trivial
  | cons i is ih =>
    refine ⟨by simp, fun state ↦ ?_⟩
    dsimp only [Prog.bind]
    split
    · exact vcablkBckndAddToDevpage_plain.bind fun _ ↦ ih
    · exact ih

theorem vcablkBckndAck_plain {err : ℤ} : (vcablkBckndAck i err).Only Plain := by
  refine ⟨by simp, fun ack ↦ ?_⟩
  dsimp only [Prog.bind]
  split
  · refine ⟨by simp, fun _ ↦ ?_⟩
    dsimp only [Prog.bind]
    split
    case isTrue =>
      refine ⟨by simp, fun err' ↦ ?_⟩
      dsimp only [Prog.bind]
      split <;> simp
    case isFalse hne => simp [hne]
  all_goals simp

theorem vcablkBckndFtbLoop_plain {is : List ℕ} : (vcablkBckndFtbLoop is).Only Plain := by
  induction is with
  | nil => trivial
  | cons i is ih =>
    refine ⟨by simp, fun ack ↦ ?_⟩
    dsimp only [Prog.bind]
    split
    · refine ⟨by simp, fun err ↦ ⟨by simp, fun state ↦ ?_⟩⟩
      dsimp only [Prog.bind]
      split
      · exact vcablkBckndAck_plain.bind fun _ ↦ ih
      · exact ih
    · exact ih

theorem vcablkBckndStopOpen_plain {is : List ℕ} : (vcablkBckndStopOpen is).Only Plain := by
  induction is with
  | nil => trivial
  | cons i is ih =>
    refine ⟨by simp, fun state ↦ ?_⟩
    dsimp only [Prog.bind]
    split
    · exact ⟨by simp, fun _ ↦ ih⟩
    · exact ih

theorem vcablkBckndCloseDevPage_plain {lim : Limits} : (vcablkBckndCloseDevPage lim).Only Plain :=
  ⟨by simp, fun _ ↦ vcablkBckndStopOpen_plain⟩

theorem vcablkBckndOpenDevPage_plain {lim : Limits} : (vcablkBckndOpenDevPage lim).Only Plain := by
  refine ⟨by simp, fun usable ↦ ?_⟩
  dsimp only [Prog.bind]
  split
  · exact vcablkBckndAddWaiting_plain.bind fun _ ↦ trivial
  · trivial

theorem vcablkBckndSetDevPage_plain {lim : Limits} : (vcablkBckndSetDevPage lim).Only Plain := by
  have hopen : (vcablkBckndOpenDevPage lim >>= fun mapped ↦ call (.setPages mapped)).Only Plain :=
    vcablkBckndOpenDevPage_plain.bind fun _ ↦ by simp
  refine ⟨by simp, fun pages ↦ ?_⟩
  dsimp only [Prog.bind]
  split
  · refine ⟨by simp, fun same ↦ ?_⟩
    dsimp only [Prog.bind]
    split
    · trivial
    · exact vcablkBckndCloseDevPage_plain.bind fun _ ↦ hopen
  · exact hopen

theorem vcablkBckndFtbWork_plain {lim : Limits} : (vcablkBckndFtbWork lim).Only Plain := by
  have hloop : (call .pages >>= fun pages ↦ if pages = true then
      vcablkBckndFtbLoop (List.range (min lim.numDevices lim.maxDev)) else pure ()).Only Plain := by
    refine ⟨by simp, fun pages ↦ ?_⟩
    dsimp only [Prog.bind]
    split
    · exact vcablkBckndFtbLoop_plain
    · trivial
  refine ⟨by simp, fun address ↦ ?_⟩
  -- what follows is in both branches of the test
  have hset : Prog.Only Plain (if address = true then vcablkBckndSetDevPage lim >>= fun _ ↦ call .pages >>= fun pages ↦
        if pages = true then vcablkBckndFtbLoop (List.range (min lim.numDevices lim.maxDev)) else pure ()
      else call .pages >>= fun pages ↦
        if pages = true then vcablkBckndFtbLoop (List.range (min lim.numDevices lim.maxDev)) else pure ()) := by
    split
    · exact vcablkBckndSetDevPage_plain.bind fun _ ↦ hloop
    · exact hloop
  refine ⟨by simp, fun pages ↦ ?_⟩
  dsimp only [Prog.bind]
  split
  · refine ⟨by simp, fun close ↦ ?_⟩
    dsimp only [Prog.bind]
    split
    · exact vcablkBckndCloseDevPage_plain.bind fun _ ↦ hset
    · exact hset
  · exact hset

end Plain

/-! ### The waits of the ioctl -/

section Waits

variable {Q : α → Shared → Prop}

theorem ioctl_plain {o : Op} {k : Res o → MProg α} (ho : Plain o) (hk : ∀ r s', IoctlSafe Q (k r) s') :
    IoctlSafe Q (.act o k) s := by
  intro s' _ hI c r s'' hsem
  obtain ⟨hgood, hguar⟩ := ho.step hI hsem
  exact ⟨hgood, hguar.1, hk r s''⟩

/-- Writing an awaited command begins the wait. -/
theorem ioctl_awaited {command : Command} {k : ℕ → MProg α} (ha : command.awaited = true)
    (hk : ∀ n s', s'.waiting i = some n → IoctlSafe Q (k n) s') :
    IoctlSafe Q (.act (.writeCommand i command) k) s := by
  intro s' _ hI c r s'' hsem
  obtain ⟨hfree, hsem⟩ := semFree_eq hsem
  obtain ⟨rfl, rfl⟩ := Prod.mk.inj (Option.some_inj.mp hsem)
  have hne : command ≠ .none := by
    rintro rfl
    simp [Command.awaited] at ha
  obtain ⟨hgood, hguar⟩ := hI.writeCommand hne hfree
  refine ⟨hgood, hguar, hk s'.issued _ ?_⟩
  simp [Shared.writeCommand, ha]

theorem vcablkBckndWait_safe (hw : s.waiting i = some n) : IoctlSafe (fun _ _ ↦ True) (vcablkBckndWait i n) s := by
  have hrest (s' : Shared) : IoctlSafe (fun _ _ ↦ True) (call (.readStatus i) >>= fun err ↦
      call (.writeAck i .none) >>= fun _ ↦ pure err) s' := ioctl_safe (by simp [Plain])
  intro s' hs hI c r s'' hsem
  obtain ⟨-, hsem⟩ := semFree_eq hsem
  have hw' : s'.waiting i = some n := (congrFun hs i).trans hw
  simp only [sem] at hsem
  split at hsem
  case isTrue hack =>
    obtain ⟨rfl, rfl⟩ := Prod.mk.inj (Option.some_inj.mp hsem)
    exact ⟨hI.accept hw' hack, ⟨fun _ _ hm ↦ hm, rfl, rfl⟩, hrest _⟩
  case isFalse =>
    split at hsem
    · obtain ⟨rfl, rfl⟩ := Prod.mk.inj (Option.some_inj.mp hsem)
      exact ⟨hI.endWait, ⟨fun _ _ hm ↦ hm, rfl, rfl⟩, fun _ _ _ ↦ trivial⟩
    · split at hsem
      · obtain ⟨rfl, rfl⟩ := Prod.mk.inj (Option.some_inj.mp hsem)
        exact ⟨hI.endWait, ⟨fun _ _ hm ↦ hm, rfl, rfl⟩, hrest _⟩
      · simp at hsem

theorem vcablkBckndTryStopFrontend_safe {force : Bool} :
    IoctlSafe (fun _ _ ↦ True) (vcablkBckndTryStopFrontend i force) s := by
  refine ioctl_plain trivial fun state s₁ ↦ ?_
  dsimp only [Prog.bind]
  split
  · exact fun _ _ _ ↦ trivial
  · exact fun _ _ _ ↦ trivial
  · refine ioctl_plain trivial fun pages s₂ ↦ ?_
    dsimp only [Prog.bind]
    split
    · refine ioctl_plain trivial fun _ s₃ ↦ ioctl_plain trivial fun _ s₄ ↦ ioctl_awaited ?_ fun n s₅ hw ↦ ?_
      · split <;> rfl
      · exact vcablkBckndWait_safe hw
    · exact fun _ _ _ ↦ trivial

theorem vcablkBckndTryDestroyFrontend_safe :
    IoctlSafe (fun _ _ ↦ True) (vcablkBckndTryDestroyFrontend i) s := by
  refine ioctl_plain trivial fun state s₁ ↦ ?_
  dsimp only [Prog.bind]
  split
  · exact fun _ _ _ ↦ trivial
  · refine ioctl_plain trivial fun pages s₂ ↦ ?_
    dsimp only [Prog.bind]
    split
    · refine ioctl_plain trivial fun _ s₃ ↦ ioctl_plain trivial fun _ s₄ ↦ ioctl_plain rfl fun _ s₅ ↦
        ioctl_awaited rfl fun n s₆ hw ↦ ?_
      dsimp only [Prog.bind]
      refine Prog.Safe.bind IoctlRely.isRely ((vcablkBckndWait_safe hw).mono fun err s₇ _ _ ↦ ?_)
      exact ioctl_plain trivial fun state s₈ _ _ _ ↦ trivial
    · exact fun _ _ _ ↦ trivial

theorem vcablkBckndDestroy_safe {force : Bool} : IoctlSafe (fun _ _ ↦ True) (vcablkBckndDestroy i force) s := by
  refine ioctl_plain trivial fun state s₁ ↦ ?_
  dsimp only [Prog.bind]
  split
  · exact fun _ _ _ ↦ trivial
  · have hrest (err : ℤ) (s₂ : Shared) : IoctlSafe (fun _ _ ↦ True) (if force = false ∧ err = -ebusy then pure err
        else vcablkBckndTryDestroyFrontend i >>= fun _ ↦ call (.diskDestroy i) >>= fun _ ↦ pure 0) s₂ := by
      split
      · exact fun _ _ _ ↦ trivial
      · refine Prog.Safe.bind IoctlRely.isRely (vcablkBckndTryDestroyFrontend_safe.mono fun _ s₃ _ _ ↦ ?_)
        exact ioctl_plain trivial fun _ s₄ _ _ _ ↦ trivial
    split
    · exact Prog.Safe.bind IoctlRely.isRely (vcablkBckndTryStopFrontend_safe.mono fun err s₂ _ _ ↦ hrest err s₂)
    · exact hrest 0 s₁

end Waits

/-! ### The frontend -/

/-- A step whose outcome the state decides. -/
theorem probe_act {Q : α → Shared → Prop} {o : Op} {k : Res o → MProg α} {res : Shared → Res o} {next : Shared → Shared}
    (hsem : ∀ s c, sem s o c = some (res s, next s))
    (hk : ∀ s', ProbeRely s s' → Good s' →
      Good (next s') ∧ IoctlRely s' (next s') ∧ ProbeSafe Q (k (res s')) (next s')) :
    ProbeSafe Q (.act o k) s := by
  intro s' hs hI c r s'' hstep
  have h := (semFree_eq hstep).2
  rw [hsem] at h
  obtain ⟨rfl, rfl⟩ := Prod.mk.inj (Option.some_inj.mp h)
  exact hk s' hs hI

theorem probe_read {Q : α → Shared → Prop} {o : Op} {k : Res o → MProg α} {res : Shared → Res o}
    (hsem : ∀ s c, sem s o c = some (res s, s))
    (hk : ∀ s', ProbeRely s s' → Good s' → ProbeSafe Q (k (res s')) s') : ProbeSafe Q (.act o k) s :=
  probe_act hsem fun s' hs hI ↦ ⟨hI, rfl, hk s' hs hI⟩

theorem vcablkHandleTask_safe (hcur : s.current i = some m) :
    ProbeSafe (fun _ s ↦ s.serving i = some m) (vcablkHandleTask i) s := by
  have htask {s' : Shared} (command : Command) (hserv : s'.serving i = some m) :
      ProbeSafe (fun _ s ↦ s.serving i = some m) (call (.task i command)) s' := by
    intro s₁ hs₁ hI₁ c r s₂ hsem
    obtain ⟨-, rfl⟩ := Prod.mk.inj (Option.some_inj.mp (semFree_eq hsem).2)
    refine ⟨hI₁, rfl, fun s₃ hs₃ _ ↦ ?_⟩
    exact (congrFun (hs₃.serving.trans hs₁.serving) i).trans hserv
  -- the read for the message
  refine probe_read (fun _ _ ↦ rfl) fun s₀ hs₀ hI₀ ↦ ?_
  refine probe_act (fun _ _ ↦ rfl) fun s₁ hs₁ hI₁ ↦ ?_
  have hcur₁ : s₁.current i = some m := hs₁.current i m (hs₀.current i m hcur)
  have hserv : (s₁.serve i).serving i = some m := by simp [Shared.serve, hcur₁]
  refine ⟨hI₁.serve, rfl, ?_⟩
  dsimp only [Prog.bind]
  have hstop : ProbeSafe (fun _ s ↦ s.serving i = some m) (call (.readCommand i) >>= fun command ↦
      call (.task i (if command = .stopForce then .stopForce else .stopNormal))) (s₁.serve i) :=
    probe_read (fun _ _ ↦ rfl) fun s₃ hs₃ _ ↦ htask _ (by rw [hs₃.serving, hserv])
  have hfail : ProbeSafe (fun _ s ↦ s.serving i = some m) (pure (-eio)) (s₁.serve i) :=
    fun s₃ hs₃ _ ↦ (congrFun hs₃.serving i).trans hserv
  split
  · exact htask _ hserv
  · exact htask _ hserv
  · exact hstop
  · exact hstop
  · exact htask _ hserv
  · exact hfail
  · exact hfail

theorem vcablkProbeWork_safe {is : List ℕ} : ProbeSafe (fun _ _ ↦ True) (vcablkProbeWork is) s := by
  induction is generalizing s with
  | nil => exact fun _ _ _ ↦ trivial
  | cons i is ih =>
    refine probe_read (fun _ _ ↦ rfl) fun s₁ _ hI₁ ↦ ?_
    dsimp only [Prog.bind]
    split
    case isFalse => exact ih
    case isTrue hne =>
      obtain ⟨m, hcur⟩ := Option.ne_none_iff_exists'.mp (mt (hI₁.command i).mp hne)
      -- from here on the command stays in its byte
      refine probe_read (fun _ _ ↦ rfl) fun s₂ hs₂ hI₂ ↦ ?_
      have hcur₂ := hs₂.current i m hcur
      have htask : (s₂.devs i).command ≠ .none := by
        refine mt (hI₂.command i).mpr ?_
        simp [hcur₂]
      dsimp only [Prog.bind]
      refine Prog.Safe.bind ProbeRely.isRely ((vcablkHandleTask_safe hcur₂).mono fun err s₃ _ hserv ↦ ?_)
      refine probe_act (fun _ _ ↦ rfl) fun s₄ hs₄ hI₄ ↦ ?_
      have hserv₄ : s₄.serving i = some m := hs₄.serving.symm ▸ hserv
      refine ⟨hI₄.report err, rfl, ?_⟩
      refine probe_act (fun _ _ ↦ rfl) fun s₆ hs₆ hI₆ ↦ ?_
      have hserv₆ : s₆.serving i = some m := hs₆.serving.symm ▸ hserv₄
      have hhandled₆ : m ∈ s₆.handled := by
        rw [hs₆.handled]
        simp [Shared.report, hserv₄]
      refine ⟨hI₆.writeAck hserv₆ htask, rfl, ?_⟩
      refine probe_act (fun _ _ ↦ rfl) fun s₈ hs₈ hI₈ ↦ ?_
      have hserv₈ : s₈.serving i = some m := hs₈.serving.symm ▸ hserv₆
      exact ⟨hI₈.clear hserv₈ (hs₈.handled.symm ▸ hhandled₆), rfl, ih⟩

end Programs

/-! ## Runs -/

/-- Between any two steps of the system. -/
structure Inv (s : Sys) : Prop where
  good : Good s.shared
  ioctl : ∀ p ∈ s.ioctl, IoctlSafe (fun _ _ ↦ True) p s.shared
  ftb : ∀ p ∈ s.ftb, p.Only Plain
  probe : ∀ p ∈ s.probe, ProbeSafe (fun _ _ ↦ True) p s.shared

section Runs

variable {lim : Limits} {s s' : Sys} {l : Label} {ls : List Label}

theorem advance_eq {α : Type} {s s' : Shared} {c : ℤ} {t t' : Option (MProg α)}
    (h : advance s c t = some (s', t')) :
    (∃ a, t = some (.ret a) ∧ s' = s ∧ t' = none) ∨
      ∃ o k r, t = some (.act o k) ∧ sem s o c = some (r, s') ∧ t' = some (k r) := by
  match t with
  | none => simp [advance] at h
  | some (.ret a) =>
    obtain ⟨rfl, rfl⟩ := Prod.mk.inj (Option.some_inj.mp h)
    exact .inl ⟨a, rfl, rfl, rfl⟩
  | some (.act o k) =>
    obtain ⟨⟨r, u⟩, hsem, heq⟩ := Option.map_eq_some_iff.mp h
    obtain ⟨rfl, rfl⟩ := Prod.mk.inj heq
    exact .inr ⟨o, k, r, rfl, hsem, rfl⟩

theorem semFree_of {s s' : Shared} {o : Op} {c : ℤ} {r : Res o} (hfree : Free s o) (h : sem s o c = some (r, s')) :
    semFree s o c = some (r, s') := by
  rw [semFree, if_pos hfree, h]

theorem Inv.init : Inv init where
  good :=
    { handshake := ⟨rfl, by simp [Mailbox.init]⟩
      command := by simp [Mailbox.init]
      lt := by simp [Mailbox.init]
      handled_lt := by simp [Mailbox.init]
      unique := by simp [Mailbox.init]
      fresh := by simp [Mailbox.init]
      serving := by simp [Mailbox.init]
      alone := by simp [Mailbox.init]
      ack := by simp [Mailbox.init] }
  ioctl := by simp [Mailbox.init]
  ftb := by simp [Mailbox.init]
  probe := by simp [Mailbox.init]

theorem Inv.stepIoctl {c : ℤ} (h : Inv s) (hfree : FreeStep s (.ioctl c)) (hs : step lim s (.ioctl c) = some s') :
    Inv s' := by
  obtain ⟨⟨sh, t⟩, hadv, rfl⟩ := Option.map_eq_some_iff.mp hs
  rcases advance_eq hadv with ⟨a, hp, rfl, rfl⟩ | ⟨o, k, r, hp, hsem, rfl⟩
  · exact ⟨h.good, by simp, h.ftb, h.probe⟩
  · have ho : Free s.shared o := hfree o (by simp [nextOp, hp, firstOp])
    obtain ⟨hgood, hguar, hrest⟩ := (h.ioctl _ hp).step IoctlRely.isRely h.good (semFree_of ho hsem)
    refine ⟨hgood, ?_, h.ftb, fun p hp ↦ (h.probe p hp).stable ProbeRely.isRely hguar⟩
    rintro p ⟨⟩
    exact hrest

theorem Inv.stepFtb {c : ℤ} (h : Inv s) (hfree : FreeStep s (.ftb c)) (hs : step lim s (.ftb c) = some s') :
    Inv s' := by
  obtain ⟨⟨sh, t⟩, hadv, rfl⟩ := Option.map_eq_some_iff.mp hs
  rcases advance_eq hadv with ⟨a, hp, rfl, rfl⟩ | ⟨o, k, r, hp, hsem, rfl⟩
  · exact ⟨h.good, h.ioctl, by simp, h.probe⟩
  · have ho : Free s.shared o := hfree o (by simp [nextOp, hp, firstOp])
    obtain ⟨hplain, hrest⟩ := h.ftb _ hp
    obtain ⟨hgood, hprobe, hioctl⟩ := hplain.step h.good (semFree_of ho hsem)
    refine ⟨hgood, fun p hp ↦ (h.ioctl p hp).stable IoctlRely.isRely hioctl, ?_,
      fun p hp ↦ (h.probe p hp).stable ProbeRely.isRely hprobe⟩
    rintro p ⟨⟩
    exact hrest r

theorem Inv.stepProbe {c : ℤ} (h : Inv s) (hfree : FreeStep s (.probe c)) (hs : step lim s (.probe c) = some s') :
    Inv s' := by
  obtain ⟨⟨sh, t⟩, hadv, rfl⟩ := Option.map_eq_some_iff.mp hs
  rcases advance_eq hadv with ⟨a, hp, rfl, rfl⟩ | ⟨o, k, r, hp, hsem, rfl⟩
  · exact ⟨h.good, h.ioctl, h.ftb, by simp⟩
  · have ho : Free s.shared o := hfree o (by simp [nextOp, hp, firstOp])
    obtain ⟨hgood, hguar, hrest⟩ := (h.probe _ hp).step ProbeRely.isRely h.good (semFree_of ho hsem)
    refine ⟨hgood, fun p hp ↦ (h.ioctl p hp).stable IoctlRely.isRely hguar, h.ftb, ?_⟩
    rintro p ⟨⟩
    exact hrest

theorem Inv.step (h : Inv s) (hfree : FreeStep s l) (hs : step lim s l = some s') : Inv s' := by
  cases l with
  | ioctl c => exact h.stepIoctl hfree hs
  | ftb c => exact h.stepFtb hfree hs
  | probe c => exact h.stepProbe hfree hs
  | create i =>
    obtain ⟨-, ⟨⟩⟩ := Option.ite_none_left_eq_some.mp hs
    refine ⟨h.good, ?_, h.ftb, h.probe⟩
    rintro p ⟨⟩
    exact ioctl_safe vcablkBckndCreate_plain
  | destroy i force =>
    obtain ⟨-, ⟨⟩⟩ := Option.ite_none_left_eq_some.mp hs
    refine ⟨h.good, ?_, h.ftb, h.probe⟩
    rintro p ⟨⟩
    exact vcablkBckndDestroy_safe
  | startFtb =>
    obtain ⟨-, ⟨⟩⟩ := Option.ite_none_left_eq_some.mp hs
    refine ⟨h.good, h.ioctl, ?_, h.probe⟩
    rintro p ⟨⟩
    exact vcablkBckndFtbWork_plain
  | startProbe =>
    obtain ⟨-, ⟨⟩⟩ := Option.ite_none_left_eq_some.mp hs
    refine ⟨h.good, h.ioctl, h.ftb, ?_⟩
    rintro p ⟨⟩
    exact vcablkProbeWork_safe

/-- In every run that writes commands only where they do no harm, no command is lost and every wait gets its own
acknowledgement. -/
theorem handshake_of_free (h : exec (step lim) init ls = some s)
    (hfree : Along (fun s l _ ↦ FreeStep s l) (step lim) init ls) : Handshake s.shared :=
  (exec_invariant (fun hinv hfree hs ↦ hinv.step hfree hs) hfree Inv.init h).good.handshake

end Runs

/-! ## One disk -/

/-- The disk is opened, and the backend then finds the page. -/
def opening : List Label :=
  Label.create 0 :: List.replicate 4 (Label.ioctl 0) ++ [Label.startFtb, .ftb 1, .ftb 0, .ftb 0, .ftb 1] ++
    List.replicate 8 (Label.ftb 0)

/-- `vcablk_bcknd_ftb_work`, with `n` steps after it has seen that the page is still the same. -/
def ftbRun (n : ℕ) : List Label :=
  [Label.startFtb, .ftb 1, .ftb 0, .ftb 0, .ftb 0, .ftb 1] ++ List.replicate n (Label.ftb 0)

/-- The first `n` steps of `vcablk_probe_work`. -/
def probeRun (n : ℕ) : List Label := Label.startProbe :: List.replicate n (Label.probe 0)

/-- CREATE, RUN, STOP and DESTROY, each handled before the next is written. -/
def lifeCycle : List Label :=
  opening ++ probeRun 9 ++ ftbRun 9 ++ probeRun 9 ++ ftbRun 7 ++
    Label.destroy 0 false :: List.replicate 6 (Label.ioctl 0) ++
    probeRun 10 ++ List.replicate 9 (Label.ioctl 0) ++ probeRun 9 ++ List.replicate 6 (Label.ioctl 0)

theorem lifeCycle_handshake : ∃ s, exec (step ⟨1, 1, 1⟩) init lifeCycle = some s ∧
    s.shared.handled = [0, 2, 4, 6] ∧ s.shared.accepted = [(4, some 4), (6, some 6)] ∧ Handshake s.shared := by
  have hrun : (exec (step ⟨1, 1, 1⟩) init lifeCycle).map (fun s ↦ (s.shared.handled, s.shared.accepted)) =
      some ([0, 2, 4, 6], [(4, some 4), (6, some 6)]) := by decide +kernel
  obtain ⟨s, hs, heq⟩ := Option.map_eq_some_iff.mp hrun
  obtain ⟨hhandled, haccepted⟩ := Prod.mk.inj heq
  exact ⟨s, hs, hhandled, haccepted, handshake_of_free hs (by decide +kernel)⟩

/-- The backend answers the acknowledgement of CREATE with RUN before the frontend has cleared the byte. -/
def answeredEarly : List Label := opening ++ probeRun 7 ++ ftbRun 9 ++ List.replicate 2 (Label.probe 0)

/-- The disk is closed when the acknowledgement of RUN still stands in the page. -/
def closedEarly : List Label :=
  opening ++ probeRun 9 ++ ftbRun 9 ++ probeRun 9 ++ Label.destroy 0 false :: List.replicate 8 (Label.ioctl 0)

/-- In the first run RUN is cleared unseen; in the second the wait for STOP takes the acknowledgement of RUN. -/
theorem handshake_broken :
    (∃ s, exec (step ⟨1, 1, 1⟩) init answeredEarly = some s ∧ s.shared.lost = [1] ∧ ¬Handshake s.shared) ∧
      ∃ s, exec (step ⟨1, 1, 1⟩) init closedEarly = some s ∧ s.shared.accepted = [(4, some 2)] ∧
        ¬Handshake s.shared := by
  constructor
  · have hrun : (exec (step ⟨1, 1, 1⟩) init answeredEarly).map (fun s ↦ s.shared.lost) = some [1] := by decide +kernel
    obtain ⟨s, hs, hlost⟩ := Option.map_eq_some_iff.mp hrun
    refine ⟨s, hs, hlost, fun h ↦ ?_⟩
    rw [h.1] at hlost
    simp at hlost
  · have hrun : (exec (step ⟨1, 1, 1⟩) init closedEarly).map (fun s ↦ s.shared.accepted) = some [(4, some 2)] := by
      decide +kernel
    obtain ⟨s, hs, haccepted⟩ := Option.map_eq_some_iff.mp hrun
    refine ⟨s, hs, haccepted, fun h ↦ ?_⟩
    have hpair := h.2 (4, some 2) (haccepted ▸ List.mem_singleton_self _)
    simp at hpair

end Vcass.BlockIo.Mailbox
