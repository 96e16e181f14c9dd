import Mathlib.Data.List.TakeWhile
import Mathlib.Data.Int.Notation
import Vcass.Lbp.Code

/-!
# The states of a card and their names

The state of a card lies in the ready register. The card writes it through a file, by its name, and reads it
there. Four tables are in between: the name of a state, the state of a name, the ready bits of a state and
the state of ready bits.

## Names

A name is looked up by comparing as many characters as were written, so the beginning of a name will do. The
first name that begins so is taken.
-/

namespace Vcass.Lbp

/-! ## The tables -/

/-- `enum vca_lbp_states`. -/
inductive VcaLbpStates
  | biosDown
  | biosUp
  | biosReady
  | osReady
  | netDevReady
  | booting
  | flashing
  | resetting
  | busy
  | done
  | error
  | netDevUp
  | netDevDown
  | netDevNoIp
  | drvProbeDone
  | drvProbeError
  | dhcpInProgress
  | dhcpDone
  | dhcpError
  | nfsMountDone
  | nfsMountError
  | linkDown
  | bootingBlockio
  | osRebooting
  | afterReboot
  | powerDown
  | poweringDown
  deriving DecidableEq, Repr

namespace VcaLbpStates

/-- `get_vca_state_string`. -/
def string : VcaLbpStates → String
  | biosDown => "bios_down"
  | biosUp => "bios_up"
  | biosReady => "bios_ready"
  | osReady => "os_ready"
  | netDevReady => "net_device_ready"
  | booting => "booting"
  | flashing => "flashing"
  | resetting => "resetting"
  | busy => "busy"
  | done => "done"
  | error => "error"
  | netDevUp => "net_device_up"
  | netDevDown => "net_device_down"
  | netDevNoIp => "net_device_no_ip"
  | drvProbeDone => "drv_probe_done"
  | drvProbeError => "drv_probe_error"
  | dhcpInProgress => "dhcp_in_progress"
  | dhcpDone => "dhcp_done"
  | dhcpError => "dhcp_error"
  | nfsMountDone => "nfs_mount_done"
  | nfsMountError => "nfs_mount_error"
  | linkDown => "link_down"
  | bootingBlockio => "booting"
  | osRebooting => "os_rebooting"
  | afterReboot => "waiting_for_boot"
  | powerDown => "power_off"
  | poweringDown => "powering_down"

def text (s : VcaLbpStates) : List Char := s.string.toList

/-- The states in the order in which `get_vca_state_num` tries their texts. -/
def decoded : List VcaLbpStates :=
  [biosDown, biosUp, biosReady, osReady, netDevReady, booting, flashing, resetting, busy, done, error,
    netDevUp, netDevDown, netDevNoIp, drvProbeDone, drvProbeError, dhcpInProgress, dhcpDone, dhcpError,
    nfsMountDone, nfsMountError, bootingBlockio, osRebooting, afterReboot, powerDown, poweringDown]

end VcaLbpStates

open VcaLbpStates

def nul : Char := '\x00'

/-- `!strncmp`, of two strings that end with a zero. -/
def strncmpEq : (a b : List Char) → (n : ℕ) → Bool
  | _, _, 0 => true
  | a, b, n + 1 =>
    if a.headD nul ≠ b.headD nul then false
    else if a.headD nul = nul then true
    else strncmpEq a.tail b.tail n

/-- `get_vca_state_num`; there is no state for `VCA_SIZE`. -/
def getVcaStateNum (str : List Char) (len : ℕ) : Option VcaLbpStates :=
  decoded.find? fun s ↦ strncmpEq s.text str len

def i7Down : UInt32 := 0

def i7Up : UInt32 := (1 : UInt32) <<< 0

def i7Busy : UInt32 := (1 : UInt32) <<< 2

def i7NetDevReady : UInt32 := (1 : UInt32) <<< 9

def i7NetDevUp : UInt32 := (1 : UInt32) <<< 10

def i7NetDevDown : UInt32 := (1 : UInt32) <<< 11

def i7NetDevNoIp : UInt32 := (1 : UInt32) <<< 12

def i7DrvProbeDone : UInt32 := (1 : UInt32) <<< 13

def i7DrvProbeError : UInt32 := i7DrvProbeDone ||| i7GeneralError

def i7DhcpInProgress : UInt32 := (1 : UInt32) <<< 14

def i7DhcpDone : UInt32 := (1 : UInt32) <<< 15

def i7DhcpError : UInt32 := i7DhcpDone ||| i7GeneralError

def i7NfsMountDone : UInt32 := (1 : UInt32) <<< 16

def i7NfsMountError : UInt32 := i7NfsMountDone ||| i7GeneralError

def i7SoftwareNodeDown : UInt32 := (1 : UInt32) <<< 18

def i7OsRebooting : UInt32 := (1 : UInt32) <<< 19

def i7AfterReboot : UInt32 := (1 : UInt32) <<< 20

def i7PowerDown : UInt32 := (1 : UInt32) <<< 21

def i7PoweringDown : UInt32 := (1 : UInt32) <<< 22

/-- The cases of `plx_lbp_get_state`. -/
def readyStates : List (UInt32 × VcaLbpStates) :=
  [(i7Down, biosDown), (i7Up, biosUp), (i7Ready, biosReady), (i7Busy, busy), (i7Booting, booting),
    (i7Flashing, flashing), (i7Done, done), (i7OsReady, osReady), (i7NetDevReady, netDevReady),
    (i7UefiError, error), (i7GeneralError, error), (i7NetDevUp, netDevUp), (i7NetDevDown, netDevDown),
    (i7NetDevNoIp, netDevNoIp), (i7DrvProbeDone, drvProbeDone), (i7DrvProbeError, drvProbeError),
    (i7DhcpInProgress, dhcpInProgress), (i7DhcpDone, dhcpDone), (i7DhcpError, dhcpError),
    (i7NfsMountDone, nfsMountDone), (i7NfsMountError, nfsMountError), (i7SoftwareNodeDown, linkDown),
    (i7BootingBlockIo, bootingBlockio), (i7OsRebooting, osRebooting), (i7Up ||| i7AfterReboot, afterReboot),
    (i7PowerDown, powerDown), (i7PoweringDown ||| i7NetDevDown, poweringDown)]

/-- The `switch` of `plx_lbp_get_state`. -/
def stateOfReady (status : UInt32) : VcaLbpStates :=
  match readyStates.lookup status with
  | some s => s
  | none => if status &&& i7PowerDown ≠ 0 then powerDown else error

/-- The `switch` of `plx_lbp_set_state`. -/
def readyOfState : VcaLbpStates → Option UInt32
  | biosDown => some i7Down
  | biosUp => some i7Up
  | biosReady => some i7Ready
  | busy => some i7Busy
  | booting => some i7Booting
  | flashing => some i7Flashing
  | done => some i7Done
  | osReady => some i7OsReady
  | netDevReady => some i7NetDevReady
  | error => some i7GeneralError
  | netDevUp => some i7NetDevUp
  | netDevDown => some i7NetDevDown
  | netDevNoIp => some i7NetDevNoIp
  | drvProbeDone => some i7DrvProbeDone
  | drvProbeError => some i7DrvProbeError
  | dhcpInProgress => some i7DhcpInProgress
  | dhcpDone => some i7DhcpDone
  | dhcpError => some i7DhcpError
  | nfsMountDone => some i7NfsMountDone
  | nfsMountError => some i7NfsMountError
  | bootingBlockio => some i7BootingBlockIo
  | osRebooting => some i7OsRebooting
  | afterReboot => some (i7Up ||| i7AfterReboot)
  | powerDown => some i7PowerDown
  | poweringDown => some i7PoweringDown
  | resetting => none
  | linkDown => none

/-! ## The code -/

def lbpBadParameterValue : Int32 := 5

/-- What the state functions know of a card. -/
structure Card where
  /-- `card_type & VCA_PRODUCTION`. -/
  production : Bool
  lbpResetting : Bool
  /-- The ready register. -/
  ready : UInt32
  deriving DecidableEq, Repr

/-- The field `ready` is set; the version stays. -/
def setReadyBits (value ready : UInt32) : UInt32 := value &&& 0xff000000 ||| ready &&& 0xffffff

/-- `plx_lbp_get_state`. -/
def plxLbpGetState (card : Card) : VcaLbpStates :=
  if !card.production then osReady
  else if card.lbpResetting then resetting
  else stateOfReady (readyBits card.ready)

/-- `plx_lbp_set_state`. -/
def plxLbpSetState (card : Card) (state : VcaLbpStates) : Int32 × Card :=
  if !card.production then (lbpStateOk, card)
  else if card.lbpResetting then (lbpInternalError, card)
  else
    match readyOfState state with
    | some ready => (lbpStateOk, { card with ready := setReadyBits card.ready ready })
    | none => (lbpBadParameterValue, card)

def einval : ℤ := 22

/-- `strcspn(buf, "\n\r")`. -/
def strcspn (buf : List Char) : ℕ := (buf.takeWhile fun c ↦ c ≠ '\n' ∧ c ≠ '\r' ∧ c ≠ nul).length

/-- `state_show`. -/
def stateShow (card : Card) : List Char := (plxLbpGetState card).text ++ ['\n']

/-- `state_store`, of a buffer that sysfs ends with a zero. -/
def stateStore (card : Card) (buf : List Char) : ℤ × Card :=
  if buf.length = 0 then (-einval, card)
  else
    let len := strcspn buf
    if len = 0 then (-einval, card)
    else
      match getVcaStateNum buf len with
      -- what `set_state` returns is not looked at
      | some state => (buf.length, (plxLbpSetState card state).2)
      | none => (-einval, card)

/-! ## What is asked -/

/-- The text before the first newline or carriage return. -/
def line (buf : List Char) : List Char := buf.takeWhile fun c ↦ c ≠ '\n' ∧ c ≠ '\r'

/-- The part of it that is looked at. -/
def word (buf : List Char) : List Char := (line buf).takeWhile fun c ↦ c ≠ nul

def Accepted (card : Card) (buf : List Char) : Prop := (stateStore card buf).1 = buf.length

/-- The texts that are accepted are the names of the states that can be stored, and what was written is
shown. -/
def Codec (card : Card) (buf : List Char) : Prop :=
  (Accepted card buf ↔ ∃ s, (readyOfState s).isSome ∧ line buf = s.text) ∧
    (Accepted card buf → stateShow (stateStore card buf).2 = line buf ++ ['\n'])

/-- The states whose names are stored and shown as they are. -/
def faithful : List VcaLbpStates := decoded.filter fun s ↦ s ≠ resetting ∧ s ≠ poweringDown

/-- Nothing is written, or something with which no name begins, or the whole name of a faithful state. -/
def Regular (buf : List Char) : Prop :=
  word buf = [] ∨ (∀ s ∈ decoded, ¬word buf <+: s.text) ∨ ∃ s ∈ faithful, line buf = s.text

/-! ## Looking a name up -/

variable {card : Card} {buf : List Char}

theorem nul_notMem_text : ∀ s : VcaLbpStates, nul ∉ s.text := by
  intro s
  cases s <;>
  · rw [text, string, String.toList_ofList]
    decide

theorem text_ne_nil : ∀ s : VcaLbpStates, s.text ≠ [] := by
  intro s
  cases s <;>
  · rw [text, string, String.toList_ofList]
    exact List.cons_ne_nil _ _

theorem strncmpEq_iff {a b rest : List Char} (ha : nul ∉ a) (hb : nul ∉ b) :
    strncmpEq a (b ++ rest) b.length = true ↔ b <+: a := by
  induction b generalizing a with
  | nil => simp [strncmpEq]
  | cons c b ih =>
    obtain ⟨hc, hb⟩ := not_or.mp (mt List.mem_cons.mpr hb)
    rw [List.length_cons, List.cons_append, strncmpEq, List.headD_cons, List.tail_cons]
    cases a with
    | nil => simp [hc]
    | cons d a =>
      obtain ⟨hd, ha⟩ := not_or.mp (mt List.mem_cons.mpr ha)
      rw [List.headD_cons, List.tail_cons, List.cons_prefix_cons, if_neg (Ne.symm hd)]
      by_cases hdc : d = c
      · rw [if_neg (not_not.mpr hdc), ih ha hb, and_iff_right hdc.symm]
      · rw [if_pos hdc]
        simp [Ne.symm hdc]

theorem word_eq (buf : List Char) : word buf = buf.takeWhile fun c ↦ c ≠ '\n' ∧ c ≠ '\r' ∧ c ≠ nul := by
  rw [word, line, List.takeWhile_takeWhile]
  congr 1
  funext c
  simp only [decide_eq_true_eq]
  rw [decide_eq_decide, and_comm, and_assoc]

theorem word_prefix_line (buf : List Char) : word buf <+: line buf := List.takeWhile_prefix _

theorem nul_notMem_word (buf : List Char) : nul ∉ word buf := by
  intro hmem
  simpa using List.mem_takeWhile_imp hmem

theorem getVcaStateNum_eq (buf : List Char) :
    getVcaStateNum buf (strcspn buf) = decoded.find? fun s ↦ (word buf).isPrefixOf s.text := by
  obtain ⟨rest, hrest⟩ : word buf <+: buf := (word_prefix_line buf).trans (List.takeWhile_prefix _)
  rw [getVcaStateNum, strcspn, ← word_eq]
  congr 1
  funext s
  rw [Bool.eq_iff_iff, List.isPrefixOf_iff_prefix]
  have hword := @strncmpEq_iff s.text (word buf) rest (nul_notMem_text s) (nul_notMem_word buf)
  rwa [hrest] at hword

theorem line_eq_word {s : VcaLbpStates} (h : line buf = s.text) : word buf = s.text := by
  rw [word, h, List.takeWhile_eq_self_iff]
  intro c hc
  rw [decide_eq_true_eq]
  rintro rfl
  exact nul_notMem_text s hc

/-- What is stored, by the word that was written. -/
theorem stateStore_eq (card : Card) (buf : List Char) : stateStore card buf =
    if word buf = [] then (-einval, card)
    else
      match decoded.find? fun s ↦ (word buf).isPrefixOf s.text with
      | some state => (buf.length, (plxLbpSetState card state).2)
      | none => (-einval, card) := by
  have hlen : strcspn buf = (word buf).length := by rw [strcspn, word_eq]
  have hnil : buf = [] → word buf = [] := by
    rintro rfl
    rfl
  unfold stateStore
  simp only [getVcaStateNum_eq]
  by_cases hbuf : buf = []
  · rw [if_pos (List.length_eq_zero_iff.mpr hbuf), if_pos (hnil hbuf)]
  · rw [if_neg (mt List.length_eq_zero_iff.mp hbuf)]
    by_cases hword : word buf = []
    · rw [if_pos (hlen.trans (List.length_eq_zero_iff.mpr hword)), if_pos hword]
    · rw [if_neg (hlen ▸ mt List.length_eq_zero_iff.mp hword), if_neg hword]

/-! ## The tables against each other -/

/-- A state that can be stored has a name that is looked up. -/
theorem mem_decoded_of_stored : ∀ s : VcaLbpStates, (readyOfState s).isSome → s ∈ decoded := by
  intro s
  cases s <;> decide

theorem find_text : ∀ s ∈ decoded, ∃ t, decoded.find? (fun u ↦ s.text.isPrefixOf u.text) = some t ∧
    t.text = s.text ∧ (s ∈ faithful → t ∈ faithful) ∧ (s ∉ faithful → t = s) := by
  decide +kernel

theorem faithful_stored : ∀ s ∈ faithful, ∃ ready, readyOfState s = some ready ∧
    stateOfReady (readyBits ready) = s := by
  decide +kernel

/-! ## The codec -/

theorem readyBits_setReadyBits (value ready : UInt32) : readyBits (setReadyBits value ready) = readyBits ready := by
  unfold readyBits setReadyBits
  apply UInt32.toBitVec_inj.mp
  simp only [UInt32.toBitVec_and, UInt32.toBitVec_or]
  rw [BitVec.and_or_distrib_right, BitVec.and_assoc, BitVec.and_assoc, BitVec.and_self]
  have hdisj : (0xff000000 : UInt32).toBitVec &&& (0xffffff : UInt32).toBitVec = 0#32 := by decide
  rw [hdisj, BitVec.and_zero, BitVec.zero_or]

theorem not_accepted_of_einval (h : (stateStore card buf).1 = -einval) : ¬Accepted card buf := by
  rw [Accepted, h, einval]
  omega

/-- On a production card in operation a state is shown as it was stored. -/
theorem stateShow_of_stored (hprod : card.production = true) (hreset : card.lbpResetting = false)
    {s : VcaLbpStates} {ready : UInt32} (hready : readyOfState s = some ready) :
    stateShow (plxLbpSetState card s).2 = (stateOfReady (readyBits ready)).text ++ ['\n'] := by
  simp [plxLbpSetState, stateShow, plxLbpGetState, hprod, hreset, hready, readyBits_setReadyBits]

/-- **The names of the states.** On a production card that is not resetting, a write does what it should if
and only if it is regular. -/
theorem codec_iff (hprod : card.production = true) (hreset : card.lbpResetting = false) (buf : List Char) :
    Codec card buf ↔ Regular buf := by
  have hstore := stateStore_eq card buf
  by_cases hword : word buf = []
  · -- nothing is written, and no state has an empty name
    rw [if_pos hword] at hstore
    have hnot : ¬Accepted card buf := not_accepted_of_einval (by rw [hstore])
    refine iff_of_true ⟨iff_of_false hnot ?_, fun h ↦ absurd h hnot⟩ (.inl hword)
    rintro ⟨s, -, hline⟩
    exact text_ne_nil s ((line_eq_word hline).symm.trans hword)
  rw [if_neg hword] at hstore
  cases hfind : decoded.find? fun s ↦ (word buf).isPrefixOf s.text with
  | none =>
    -- no name begins with the word, so it is not a name either
    rw [hfind] at hstore
    have hnot : ¬Accepted card buf := not_accepted_of_einval (by rw [hstore])
    have hno : ∀ s ∈ decoded, ¬word buf <+: s.text := by
      intro s hs hpre
      exact List.find?_eq_none.mp hfind s hs (List.isPrefixOf_iff_prefix.mpr hpre)
    refine iff_of_true ⟨iff_of_false hnot ?_, fun h ↦ absurd h hnot⟩ (.inr (.inl hno))
    rintro ⟨s, hs, hline⟩
    exact hno s (mem_decoded_of_stored s hs) (line_eq_word hline ▸ List.prefix_refl _)
  | some t =>
    rw [hfind] at hstore
    have hacc : Accepted card buf := by rw [Accepted, hstore]
    have hpre := List.find?_some hfind
    rw [List.isPrefixOf_iff_prefix] at hpre
    constructor
    · rintro ⟨haccept, hshow⟩
      obtain ⟨s, hs, hline⟩ := haccept.mp hacc
      refine .inr (.inr ⟨s, ?_, hline⟩)
      obtain ⟨u, hu, -, -, hother⟩ := find_text s (mem_decoded_of_stored s hs)
      rw [← line_eq_word hline, hfind, Option.some_inj] at hu
      by_contra hfaithful
      -- the only such state that can be stored is the one that is not read back
      obtain rfl : s = poweringDown := by
        revert hs hfaithful
        cases s <;> decide
      have hback := hshow hacc
      rw [hstore, hu, hother hfaithful, stateShow_of_stored hprod hreset rfl, hline] at hback
      revert hback
      decide +kernel
    · rintro (hnil | hno | ⟨s, hs, hline⟩)
      · exact absurd hnil hword
      · exact absurd hpre (hno t (List.mem_of_find?_eq_some hfind))
      · obtain ⟨u, hu, htext, hu', -⟩ := find_text s (List.mem_of_mem_filter hs)
        rw [← line_eq_word hline, hfind, Option.some_inj] at hu
        subst hu
        obtain ⟨ready, hready, hback⟩ := faithful_stored t (hu' hs)
        refine ⟨iff_of_true hacc ⟨t, by rw [hready]; rfl, hline.trans htext.symm⟩, fun _ ↦ ?_⟩
        rw [hstore, stateShow_of_stored hprod hreset hready, hback, htext, hline]

/-- A card in operation, with version 1.0 of the protocol. -/
def upCard : Card := ⟨true, false, 0x1000001⟩

theorem net_device_up_stored : Codec upCard "net_device_up\n".toList :=
  (codec_iff rfl rfl _).mpr (.inr (.inr ⟨.netDevUp, by decide +kernel, by decide +kernel⟩))

/-- The beginning of a name is taken for it, and a name is shown as another one. -/
theorem bios_stored_as_bios_down : ¬Codec upCard "bios\n".toList ∧ ¬Codec upCard "powering_down\n".toList := by
  constructor
  · rintro ⟨haccept, -⟩
    obtain ⟨s, -, hline⟩ := haccept.mp (by unfold Accepted; decide +kernel)
    revert hline
    cases s <;>
    · rw [text, string, String.toList_ofList, String.toList_ofList]
      decide
  · rintro ⟨-, hshow⟩
    have hback := hshow (by unfold Accepted; decide +kernel)
    revert hback
    decide +kernel

end Vcass.Lbp
