import Mathlib.Data.Nat.Notation
import Mathlib.Data.List.Basic
import Vcass.Lib.Run

/-!
# The card agent and its commands

The host asks the agent on a card for data through the boot parameters, which both can access: the host
writes a command and rings a doorbell, the agent reads the command, puts the data into memory of its own
and sets `csa_finished`, and the host, which has been polling that flag, reads the data and clears it. The
host gives up after some time, while the agent goes on with what it has begun.

## Agents

The host, whose commands are serialised by a mutex; the interrupt handler of the card; and the agent,
whose reads of `csa_mem` are `csa_mem_show` and whose writes to it are `csa_mem_store`. Every access to the
boot parameters and to the request counter is a step of its own.

`plx_set_config_file` frees the old data before it allocates memory for the new. Where that fails there is
no data, and `_plx_set_card_csa_mem` sets `csa_finished` all the same.

## History

Commands are numbered in the order in which they are written. A number goes with the command byte, with
what the agent does for it and with the data, so that data can be traced to its command.
-/

namespace Vcass.Csa

open Conc

/-! ## The system -/

/-- `_plx_csm_agent_command`, with the number of its command. -/
inductive Host
  | idle
  /-- The flag was looked at, and cleared if it was set. -/
  | cleared (cmd : UInt8) (k : ℕ)
  | written (k : ℕ)
  /-- The doorbell was rung. -/
  | waiting (k : ℕ)
  /-- The flag was found set. -/
  | reading (k : ℕ)
  /-- The data was copied. -/
  | clearing
  deriving DecidableEq, Repr

/-- The agent. -/
inductive Agent
  /-- In `csa_mem_show`, waiting for a request. -/
  | wait
  /-- There is a request. -/
  | woken
  /-- The command was read. -/
  | read (k : ℕ)
  /-- Back from `csa_mem_show`. -/
  | work (k : ℕ)
  /-- In `plx_set_config_file`; the old data is freed. -/
  | freed (k : ℕ)
  /-- The new data is there, or there was no memory for it. -/
  | stored
  deriving DecidableEq, Repr

structure Sys where
  /-- `csa_command`, with its number. -/
  csaCommand : UInt8 × ℕ
  csaFinished : Bool
  /-- The doorbell was rung and not handled. -/
  doorbell : Bool
  /-- The data, by the command it was produced for; `none` while it is replaced. -/
  cardCsaMem : Option ℕ
  csaRequests : UInt32
  lastServicedRequest : UInt32
  host : Host
  agent : Agent
  /-- How many commands were written or are about to be. -/
  issued : ℕ
  /-- What the host has returned: the number of a command and the data. -/
  returned : List (ℕ × Option ℕ)
  /-- The commands that timed out. -/
  timeouts : List ℕ
  /-- The commands that the agent has read. -/
  reads : List ℕ

inductive Label
  /-- A command is given to the host. -/
  | command (cmd : UInt8)
  | host
  /-- The host has polled the flag often enough. -/
  | giveUp
  | interrupt
  /-- `alloc` tells whether there is memory for new data. -/
  | agent (alloc : Bool)
  deriving DecidableEq, Repr

/-- `VCA_AGENT_CMD_SIZE`. -/
def vcaAgentCmdSize : ℕ := 13

/-- The command is a `char`. -/
def vcaValidateAgentCmd (value : UInt8) : Bool := 0 < value.toInt8 && value.toInt8.toInt < vcaAgentCmdSize

def hostStep (s : Sys) : Option Sys :=
  match s.host with
  | .idle => none
  | .cleared cmd k => some { s with csaCommand := (cmd, k), host := .written k }
  | .written k => some { s with doorbell := true, host := .waiting k }
  | .waiting k => some (if s.csaFinished then { s with host := .reading k } else s)
  | .reading k => some { s with returned := s.returned ++ [(k, s.cardCsaMem)], host := .clearing }
  | .clearing => some { s with csaFinished := false, host := .idle }

def agentStep (s : Sys) (alloc : Bool) : Sys :=
  match s.agent with
  | .wait => if s.lastServicedRequest ≠ s.csaRequests then { s with agent := .woken } else s
  | .woken => { s with agent := .read s.csaCommand.2, reads := s.reads ++ [s.csaCommand.2] }
  | .read k => { s with lastServicedRequest := s.csaRequests, agent := .work k }
  | .work k => { s with cardCsaMem := none, agent := .freed k }
  | .freed k => { s with cardCsaMem := if alloc then some k else none, agent := .stored }
  | .stored => { s with csaFinished := true, agent := .wait }

def step (s : Sys) : Label → Option Sys
  | .command cmd =>
    if s.host = .idle then
      if vcaValidateAgentCmd cmd then
        some { s with csaFinished := false, host := .cleared cmd s.issued, issued := s.issued + 1 }
      else some s
    else none
  | .host => hostStep s
  | .giveUp =>
    match s.host with
    | .waiting k =>
      -- The flag is looked at once more.
      if s.csaFinished then some { s with host := .reading k }
      else some { s with host := .idle, timeouts := s.timeouts ++ [k] }
    | _ => none
  | .interrupt =>
    if s.doorbell then some { s with doorbell := false, csaRequests := s.csaRequests + 1 } else none
  | .agent alloc => some (agentStep s alloc)

def init : Sys where
  csaCommand := (0, 0)
  csaFinished := false
  doorbell := false
  cardCsaMem := none
  csaRequests := 0
  lastServicedRequest := 0
  host := .idle
  agent := .wait
  issued := 0
  returned := []
  timeouts := []
  reads := []

/-! ## What is asked of it -/

/-- The host returns what the agent has produced for the command. -/
def Answers (s : Sys) : Prop := ∀ r ∈ s.returned, r.2 = some r.1

/-- The card has nothing to do. -/
def Quiet (s : Sys) : Prop :=
  s.agent = .wait ∧ s.doorbell = false ∧ s.lastServicedRequest = s.csaRequests

/-- A command is given when no other one has timed out, or the card is quiet again, and there is memory for the answer
to a command that has not timed out. -/
def Patient (s : Sys) : Label → Prop
  | .command _ => s.timeouts = [] ∨ Quiet s
  | .agent alloc => ∀ k, s.agent = .freed k → alloc = true ∨ k ∈ s.timeouts
  | _ => True

instance Quiet.decidable (s : Sys) : Decidable (Quiet s) := inferInstanceAs (Decidable (_ ∧ _ ∧ _))

instance Patient.decidable (s : Sys) : ∀ l, Decidable (Patient s l)
  | .command _ => inferInstanceAs (Decidable (_ ∨ Quiet s))
  | .agent alloc =>
    match hc : s.agent with
    | .freed k => decidable_of_iff (alloc = true ∨ k ∈ s.timeouts)
        ⟨fun h j hj ↦ by rw [hc, Agent.freed.injEq] at hj; exact hj ▸ h, fun h ↦ h k hc⟩
    | .wait | .woken | .read _ | .work _ | .stored => .isTrue fun j hj ↦ by simp [hc] at hj
  | .host | .giveUp | .interrupt => .isTrue trivial

/-! ## The invariant

A doorbell, a request that is not yet serviced and a command that the agent works on are never there at the
same time: together they are one token, which the host puts in with a command. -/

/-- Where the token is, and what the agent has in hand. -/
def AgentOk (s : Sys) : Prop :=
  match s.agent with
  | .wait =>
    (s.doorbell = true → s.lastServicedRequest = s.csaRequests) ∧
      (s.lastServicedRequest = s.csaRequests ∨ s.csaRequests = s.lastServicedRequest + 1)
  | .woken => s.doorbell = false ∧ s.csaRequests = s.lastServicedRequest + 1
  | .read k =>
    s.doorbell = false ∧ s.csaRequests = s.lastServicedRequest + 1 ∧ k = s.csaCommand.2 ∧ k ∈ s.reads
  | .work k | .freed k =>
    s.doorbell = false ∧ s.lastServicedRequest = s.csaRequests ∧ k = s.csaCommand.2 ∧ k ∈ s.reads
  | .stored =>
    s.doorbell = false ∧ s.lastServicedRequest = s.csaRequests ∧
      (s.cardCsaMem = some s.csaCommand.2 ∨ s.csaCommand.2 ∈ s.timeouts) ∧ s.csaCommand.2 ∈ s.reads

def HostOk (s : Sys) : Prop :=
  match s.host with
  | .idle => s.timeouts = [] → Quiet s
  | .cleared _ _ => Quiet s ∧ s.csaFinished = false
  | .written k => Quiet s ∧ s.csaFinished = false ∧ s.csaCommand.2 = k
  | .waiting k =>
    s.csaCommand.2 = k ∧ (s.csaFinished = true → Quiet s ∧ s.cardCsaMem = some k) ∧ (Quiet s → k ∈ s.reads)
  | .reading k => Quiet s ∧ s.cardCsaMem = some k
  | .clearing => Quiet s

/-- The command that the host is at and has not answered yet. -/
def Host.number : Host → Option ℕ
  | .cleared _ k | .written k | .waiting k => some k
  | .idle | .reading _ | .clearing => none

structure Inv (s : Sys) : Prop where
  agent : AgentOk s
  host : HostOk s
  answers : Answers s
  issued : ∀ k ∈ s.timeouts, k < s.issued
  fresh : ∀ k ∈ s.host.number, k < s.issued ∧ k ∉ s.timeouts

section Steps

variable {s s' : Sys} {l : Label}

theorem ne_add_one (x : UInt32) : x ≠ x + 1 := by
  intro h
  have hzero : (1 : UInt32) = 0 := by
    have hcancel : x + 0 = x + 1 := by rw [UInt32.add_zero]; exact h
    exact (UInt32.add_right_inj x |>.mp hcancel).symm
  exact absurd hzero (by decide)

theorem Quiet.agentStep_eq (h : Quiet s) (alloc : Bool) : agentStep s alloc = s := by
  rw [agentStep.eq_def, h.1]
  simp only [h.2.2, ne_eq, not_true_eq_false, if_false]

theorem AgentOk.of_quiet (h : Quiet s) : AgentOk s := by
  rw [AgentOk, h.1]
  exact ⟨fun _ ↦ h.2.2, .inl h.2.2⟩

theorem command_inv {cmd : UInt8} (h : Inv s) (hl : Patient s (.command cmd))
    (hs' : step s (.command cmd) = some s') : Inv s' := by
  rw [step] at hs'
  split_ifs at hs' with hidle hvalid
  · obtain rfl := Option.some_inj.mp hs'
    have hhost := h.host
    rw [HostOk, hidle] at hhost
    have hquiet : Quiet s := hl.elim hhost id
    refine ⟨AgentOk.of_quiet hquiet, ⟨hquiet, rfl⟩, h.answers, fun k hk ↦ ?_, fun k hk ↦ ?_⟩
    · exact Nat.lt_succ_of_lt (h.issued k hk)
    · obtain rfl := Option.some_inj.mp hk
      exact ⟨Nat.lt_succ_self _, fun hmem ↦ absurd (h.issued _ hmem) (Nat.lt_irrefl _)⟩
  · obtain rfl := Option.some_inj.mp hs'
    exact h

theorem hostStep_inv (h : Inv s) (hs' : hostStep s = some s') : Inv s' := by
  have hhost := h.host
  have hagent := h.agent
  have hfresh := h.fresh
  rw [hostStep] at hs'
  rw [HostOk] at hhost
  cases hc : s.host with
  | idle =>
    rw [hc] at hs'
    cases hs'
  | cleared cmd k =>
    rw [hc] at hs' hhost hfresh
    obtain rfl := Option.some_inj.mp hs'
    exact ⟨AgentOk.of_quiet hhost.1, ⟨hhost.1, hhost.2, rfl⟩, h.answers, h.issued, hfresh⟩
  | written k =>
    rw [hc] at hs' hhost hfresh
    obtain rfl := Option.some_inj.mp hs'
    obtain ⟨hquiet, hfin, hcmd⟩ := hhost
    refine ⟨?_, ⟨hcmd, fun hf ↦ ?_, fun hq ↦ ?_⟩, h.answers, h.issued, hfresh⟩
    · simp only [AgentOk, hquiet.1]
      exact ⟨fun _ ↦ hquiet.2.2, .inl hquiet.2.2⟩
    · exact absurd (hfin.symm.trans hf) Bool.false_ne_true
    · exact Bool.noConfusion hq.2.1
  | waiting k =>
    rw [hc] at hs' hhost
    obtain rfl := Option.some_inj.mp hs'
    split_ifs with hfin
    · exact ⟨hagent, hhost.2.1 hfin, h.answers, h.issued, nofun⟩
    · exact h
  | reading k =>
    rw [hc] at hs' hhost
    obtain rfl := Option.some_inj.mp hs'
    refine ⟨hagent, hhost.1, fun r hr ↦ ?_, h.issued, nofun⟩
    rcases List.mem_append.mp hr with hr | hr
    · exact h.answers r hr
    · rw [List.mem_singleton.mp hr]
      exact hhost.2
  | clearing =>
    rw [hc] at hs' hhost
    obtain rfl := Option.some_inj.mp hs'
    exact ⟨hagent, fun _ ↦ hhost, h.answers, h.issued, nofun⟩

theorem AgentOk.giveUp {k : ℕ} (h : AgentOk s) :
    AgentOk { s with host := .idle, timeouts := s.timeouts ++ [k] } := by
  rw [AgentOk] at h ⊢
  dsimp only
  cases hc : s.agent with
  | stored =>
    rw [hc] at h
    exact ⟨h.1, h.2.1, h.2.2.1.imp_right (List.mem_append_left _), h.2.2.2⟩
  | wait | woken | read _ | work _ | freed _ =>
    rw [hc] at h
    exact h

theorem giveUp_inv (h : Inv s) (hs' : step s .giveUp = some s') : Inv s' := by
  have hhost := h.host
  rw [HostOk] at hhost
  rw [step.eq_def] at hs'
  cases hc : s.host with
  | waiting k =>
    simp only [hc] at hs'
    rw [hc] at hhost
    have hlt : k < s.issued := (h.fresh k (by rw [hc]; rfl)).1
    split_ifs at hs' with hfin
    · obtain rfl := Option.some_inj.mp hs'
      exact ⟨h.agent, hhost.2.1 hfin, h.answers, h.issued, nofun⟩
    · obtain rfl := Option.some_inj.mp hs'
      refine ⟨h.agent.giveUp, fun hnil ↦ absurd hnil (by simp), h.answers, fun j hj ↦ ?_, nofun⟩
      rcases List.mem_append.mp hj with hj | hj
      · exact h.issued j hj
      · exact List.mem_singleton.mp hj ▸ hlt
  | idle | cleared _ _ | written _ | reading _ | clearing =>
    simp only [hc] at hs'
    cases hs'

theorem HostOk.of_not_quiet (h : HostOk s) (hbusy : ¬ Quiet s) :
    (s.host = .idle ∧ s.timeouts ≠ []) ∨
      ∃ k, s.host = .waiting k ∧ s.csaCommand.2 = k ∧ s.csaFinished = false := by
  rw [HostOk] at h
  cases hc : s.host with
  | idle =>
    rw [hc] at h
    exact .inl ⟨rfl, fun hnil ↦ hbusy (h hnil)⟩
  | waiting k =>
    rw [hc] at h
    refine .inr ⟨k, rfl, h.1, ?_⟩
    exact Bool.eq_false_iff.mpr fun hfin ↦ hbusy (h.2.1 hfin).1
  | cleared _ _ | written _ | reading _ =>
    rw [hc] at h
    exact absurd h.1 hbusy
  | clearing =>
    rw [hc] at h
    exact absurd h hbusy

/-- What has to be shown of a step that the card takes: it leaves the host alone, and the flag as well unless
it has answered. -/
theorem Inv.host_of_busy (h : Inv s) (hbusy : ¬ Quiet s) (hhost : s'.host = s.host)
    (htimeouts : s'.timeouts = s.timeouts) (hcmd : s'.csaCommand = s.csaCommand)
    (hfin : s'.csaFinished = true → s.csaFinished = true ∨
      Quiet s' ∧ (s'.cardCsaMem = some s.csaCommand.2 ∨ s.csaCommand.2 ∈ s.timeouts))
    (hreads : Quiet s' → s.csaCommand.2 ∈ s'.reads) : HostOk s' := by
  rw [HostOk, hhost, htimeouts, hcmd]
  rcases h.host.of_not_quiet hbusy with ⟨hidle, hne⟩ | ⟨k, hwait, rfl, hfalse⟩
  · rw [hidle]
    exact fun hnil ↦ absurd hnil hne
  · rw [hwait]
    refine ⟨rfl, fun hf ↦ ?_, hreads⟩
    rcases hfin hf with htrue | ⟨hquiet, hanswer⟩
    · exact absurd (hfalse.symm.trans htrue) Bool.false_ne_true
    · exact ⟨hquiet, hanswer.resolve_right (h.fresh _ (by rw [hwait]; rfl)).2⟩

/-- The doorbell is rung only while the agent waits with no request left. -/
theorem interrupt_inv (h : Inv s) (hs' : step s .interrupt = some s') : Inv s' := by
  rw [step] at hs'
  split_ifs at hs' with hbell
  obtain rfl := Option.some_inj.mp hs'
  have hbusy : ¬ Quiet s := fun hq ↦ Bool.false_ne_true (hq.2.1.symm.trans hbell)
  have hagent := h.agent
  have hnone {p : Prop} (hno : s.doorbell = false) : p := absurd (hno.symm.trans hbell) Bool.false_ne_true
  cases hc : s.agent with
  | wait =>
    simp only [AgentOk, hc] at hagent
    have hlast : s.lastServicedRequest = s.csaRequests := hagent.1 hbell
    refine ⟨?_, h.host_of_busy hbusy rfl rfl rfl .inl fun hq ↦ ?_, h.answers, h.issued, h.fresh⟩
    · simp only [AgentOk, hlast]
      exact ⟨fun hf ↦ Bool.noConfusion hf, .inr trivial⟩
    · exact absurd (hlast.symm.trans hq.2.2) (ne_add_one _)
  | woken | read _ | work _ | freed _ | stored =>
    simp only [AgentOk, hc] at hagent
    exact hnone hagent.1

theorem Inv.of_busy (h : Inv s) (hbusy : ¬ Quiet s) (hagent : AgentOk s') (hbusy' : s'.agent ≠ .wait)
    (hhost : s'.host = s.host) (htimeouts : s'.timeouts = s.timeouts) (hcmd : s'.csaCommand = s.csaCommand)
    (hfin : s'.csaFinished = s.csaFinished) (hreturned : s'.returned = s.returned)
    (hissued : s'.issued = s.issued) : Inv s' := by
  refine ⟨hagent, h.host_of_busy hbusy hhost htimeouts hcmd ?_ ?_, ?_, ?_, ?_⟩
  · rw [hfin]
    exact .inl
  · exact fun hq ↦ absurd hq.1 hbusy'
  · rw [Answers, hreturned]
    exact h.answers
  · rw [htimeouts, hissued]
    exact h.issued
  · rw [hhost, htimeouts, hissued]
    exact h.fresh

theorem agentStep_inv {alloc : Bool} (h : Inv s) (hl : Patient s (.agent alloc)) : Inv (agentStep s alloc) := by
  by_cases hquiet : Quiet s
  · rw [hquiet.agentStep_eq]
    exact h
  have hagent := h.agent
  rw [AgentOk] at hagent
  rw [agentStep.eq_def]
  cases hc : s.agent with
  | wait =>
    simp only
    rw [hc] at hagent
    split_ifs with hne
    · have hnext : s.csaRequests = s.lastServicedRequest + 1 := hagent.2.resolve_left hne
      have hbell : s.doorbell = false := Bool.eq_false_iff.mpr fun hb ↦ hne (hagent.1 hb)
      exact h.of_busy hquiet ⟨hbell, hnext⟩ nofun rfl rfl rfl rfl rfl rfl
    · exact h
  | woken =>
    rw [hc] at hagent
    refine h.of_busy hquiet ⟨hagent.1, hagent.2, rfl, ?_⟩ nofun rfl rfl rfl rfl rfl rfl
    exact List.mem_append_right _ (List.mem_singleton_self _)
  | read k =>
    rw [hc] at hagent
    exact h.of_busy hquiet ⟨hagent.1, rfl, hagent.2.2⟩ nofun rfl rfl rfl rfl rfl rfl
  | work k =>
    rw [hc] at hagent
    exact h.of_busy hquiet hagent nofun rfl rfl rfl rfl rfl rfl
  | freed k =>
    rw [hc] at hagent
    obtain ⟨hbell, hlast, rfl, hread⟩ := hagent
    refine h.of_busy hquiet ⟨hbell, hlast, ?_, hread⟩ nofun rfl rfl rfl rfl rfl rfl
    -- without memory there is no data, and the command has timed out
    exact (hl _ hc).imp_left fun halloc ↦ if_pos halloc
  | stored =>
    -- The token is given back: the card is quiet, and its answer is that to the last command.
    rw [hc] at hagent
    obtain ⟨hbell, hlast, hmem, hread⟩ := hagent
    refine ⟨⟨fun _ ↦ hlast, .inl hlast⟩, ?_, h.answers, h.issued, h.fresh⟩
    exact h.host_of_busy hquiet rfl rfl rfl (fun _ ↦ .inr ⟨⟨rfl, hbell, hlast⟩, hmem⟩) fun _ ↦ hread

theorem step_inv (h : Inv s) (hl : Patient s l) (hs' : step s l = some s') : Inv s' := by
  cases l with
  | command cmd => exact command_inv h hl hs'
  | host => exact hostStep_inv h hs'
  | giveUp => exact giveUp_inv h hs'
  | interrupt => exact interrupt_inv h hs'
  | agent alloc =>
    obtain rfl := Option.some_inj.mp hs'
    exact agentStep_inv h hl

end Steps

theorem init_inv : Inv init :=
  ⟨⟨nofun, .inl rfl⟩, fun _ ↦ ⟨rfl, rfl, rfl⟩, nofun, nofun, nofun⟩

end Vcass.Csa
