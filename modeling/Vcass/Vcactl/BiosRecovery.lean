import Mathlib.Data.Nat.Notation
import Vcass.Lib.Script

/-!
# BIOS recovery

`recover-BIOS` boots a node with the gold BIOS and waits for it, flashes the BIOS, and boots the node with what
was flashed. The wait is a loop: it ends when a handshake succeeds, and at each pass it looks at the clock.

When more than `GOLD_BIOS_LOAD_TIMEOUT` has passed the node is restored, which disables the gold BIOS; but this
does not end the loop. If the handshake has failed, it is tried again, and if it has succeeded the BIOS is
flashed.

## Outcomes

What the ioctls, the power button and the clock answer is given in advance, by the number of the pass or of the
try. A function gives the operations that it performs and its result, which is missing as long as the loop goes
on; how many passes of the loop are looked at is a parameter.
-/

namespace Vcass.Vcactl

open Script

/-! ## The code -/

inductive CardType
  | unknown
  | vvFab1
  | vvFab2
  | mv
  | fpga
  | vcaa
  | vcga
  deriving DecidableEq, Repr

/-- `type & VCA_PRODUCTION`. -/
def CardType.production : CardType → Bool
  | .unknown => false
  | _ => true

/-- Cards with a gold BIOS: those of the second generation. -/
def CardType.hasGoldBios : CardType → Bool
  | .mv | .fpga | .vcaa | .vcga => true
  | _ => false

inductive BiosCmd
  | updateBios
  | recoverBios
  deriving DecidableEq, Repr

inductive Operation
  | enableGoldBios (ok : Bool)
  | disableGoldBios
  | holdPowerButton
  | togglePowerButton
  | pressPowerButton (hold : Bool)
  | reset
  /-- A handshake of the waiting loop is begun. -/
  | handshake
  /-- The handshake is over, and the clock is read: its outcome and the time since the loop began. -/
  | sampled (ok : Bool) (passed : UInt32)
  /-- The waiting loop has ended. -/
  | waited (ok : Bool)
  /-- `restore_cpu_after_bios_update` is run. -/
  | restore
  | disableSgx
  | flashBios
  deriving DecidableEq, Repr

/-- The outcomes in one run of `restore_cpu_after_bios_update`. -/
structure RestoreEnv where
  cardFd : Bool
  disableGoldBios : Bool
  holdPowerButton : Bool
  togglePowerButton : Bool

structure RecoveryEnv where
  cardType : CardType
  /-- The card is in a state in which its BIOS can be updated, and it was prepared. -/
  standardSetup : Bool
  /-- The file with the BIOS could be mapped. -/
  imageMapped : Bool
  cardFd : Bool
  enableGoldBios : Bool
  holdPowerButton : Bool
  togglePowerButton : Bool
  waitCpuFd : Bool
  /-- The handshakes of the waiting loop: whether `LBP_STATE_OK` is returned, if the ioctl succeeds. -/
  handshake : ℕ → Option Bool
  /-- What `get_passed_time_ms` returns after a handshake. -/
  passed : ℕ → UInt32
  restoreInLoop : ℕ → RestoreEnv
  cpuFd : Bool
  /-- The BIOS has a setting for SGX, and it is on. -/
  sgxEnabled : Bool
  flashBios : ℕ → Bool
  tryHandshake : ℕ → Bool
  restore : RestoreEnv

/-- In milliseconds. -/
def goldBiosLoadTimeout : UInt32 := 200000

def afterHandshakeResetTries : ℕ := 3

def bootGoldBios (env : RecoveryEnv) : Script Operation :=
  (check env.cardFd).andThen <|
  (op (.enableGoldBios env.enableGoldBios) env.enableGoldBios).andThen <|
  (op .holdPowerButton env.holdPowerButton).andThen <|
  op .togglePowerButton env.togglePowerButton

def restoreCpuAfterBiosUpdate (env : RestoreEnv) : Script Operation :=
  (record .restore).andThen <|
  (check env.cardFd).andThen <|
  (op .disableGoldBios env.disableGoldBios).andThen <|
  (op .holdPowerButton env.holdPowerButton).andThen <|
  op .togglePowerButton env.togglePowerButton

/-- The loop of `setup_bios_recovery`, from a pass on. -/
def waitForGoldBios (env : RecoveryEnv) : ℕ → ℕ → Script Operation
  | 0, _ => ⟨[], none⟩
  | passes + 1, i =>
    match env.handshake i with
    | none => after [.handshake] (op (.waited false) false)
    | some state =>
      after [.handshake, .sampled state (env.passed i)] <|
      (if goldBiosLoadTimeout < env.passed i then (restoreCpuAfterBiosUpdate (env.restoreInLoop i)).ignore
        else check true).andThen <|
      if state then record (.waited true) else waitForGoldBios env passes (i + 1)

def setupBiosRecovery (env : RecoveryEnv) (passes : ℕ) : Script Operation :=
  (bootGoldBios env).andThen <| (check env.waitCpuFd).andThen <| waitForGoldBios env passes 0

/-- `try_ioctl_with_img` for `LBP_FLASH_BIOS`, with a number of tries left. -/
def tryIoctlWithImg (env : RecoveryEnv) : ℕ → ℕ → Script Operation
  | 0, _ => check false
  | tries + 1, i =>
    if env.flashBios i then record .flashBios
    else after [.flashBios, .reset] <| (check (env.tryHandshake i)).andThen <| tryIoctlWithImg env tries (i + 1)

/-- What `update_bios` does once the node is ready for it. -/
def flashNode (env : RecoveryEnv) (cmd : BiosCmd) : Script Operation :=
  (check env.cpuFd).andThen <|
  (if env.sgxEnabled then record .disableSgx else check true).andThen <|
  (check env.cardType.production).andThen <|
  (tryIoctlWithImg env afterHandshakeResetTries 0).andThen <|
  match cmd with
  | .recoverBios => restoreCpuAfterBiosUpdate env.restore
  | .updateBios =>
    if env.cardType.hasGoldBios then after [.pressPowerButton true] (record (.pressPowerButton false))
    else record .reset

def updateBios (env : RecoveryEnv) (cmd : BiosCmd) (passes : ℕ) : Script Operation :=
  (check (cmd ≠ .recoverBios || env.cardType.hasGoldBios)).andThen <|
  (check (cmd = .recoverBios || !env.cardType.production || env.standardSetup)).andThen <|
  (check env.imageMapped).andThen <|
  (if cmd = .recoverBios then setupBiosRecovery env passes else check true).andThen <|
  flashNode env cmd

/-! ## The property -/

/-- Whether the gold BIOS is selected after an operation. -/
def goldSelected (gold : Bool) : Operation → Bool
  | .enableGoldBios ok => gold || ok
  | .disableGoldBios => false
  | _ => gold

/-- The BIOS is flashed only if the gold BIOS is selected. -/
def FlashPermitted (gold : Bool) (o : Operation) : Prop := o = .flashBios → gold = true

/-- A handshake that fails after the timeout is the last of the loop, which ends with failure. -/
def EndsAtTimeout (env : RecoveryEnv) : Prop :=
  ∀ passes before passed rest,
    (updateBios env .recoverBios passes).trace = before ++ Operation.sampled false passed :: rest →
      goldBiosLoadTimeout < passed →
        .handshake ∉ rest ∧ ∃ more, .waited false ∈ (updateBios env .recoverBios more).trace

/-- A recovery flashes under the gold BIOS, does not wait on after the timeout, and restores the node at most
once. -/
structure SafeRecovery (env : RecoveryEnv) : Prop where
  gold : ∀ passes, Monitored goldSelected FlashPermitted false (updateBios env .recoverBios passes).trace
  timeout : EndsAtTimeout env
  restore : ∀ passes, (updateBios env .recoverBios passes).trace.count .restore ≤ 1

/-! ## The condition -/

/-- The waiting loop is reached. -/
def Waits (env : RecoveryEnv) : Prop :=
  env.cardType.hasGoldBios = true ∧ env.imageMapped = true ∧ env.cardFd = true ∧ env.enableGoldBios = true ∧
    env.holdPowerButton = true ∧ env.togglePowerButton = true ∧ env.waitCpuFd = true

/-- In a pass of the loop the clock reads more than the timeout. -/
def Late (env : RecoveryEnv) (i : ℕ) : Prop :=
  (∀ j < i, env.handshake j = some false) ∧ env.handshake i ≠ none ∧ goldBiosLoadTimeout < env.passed i

/-- None of the tries to flash succeeds. -/
def FlashFails (env : RecoveryEnv) : Prop :=
  ∀ k < afterHandshakeResetTries, (∀ j < k, env.tryHandshake j = true) → env.flashBios k = false

/-- If the clock reads more than the timeout, the handshake has succeeded in this pass; and the node is not
flashed, or it was not restored and the flash fails. -/
def TimelyGoldBios (env : RecoveryEnv) : Prop :=
  Waits env → ∀ i, Late env i → env.handshake i = some true ∧
    (env.cpuFd = false ∨ ((env.restoreInLoop i).cardFd = false ∧ FlashFails env))

/-! ## What is performed -/

variable {env : RecoveryEnv} {i j n passes : ℕ} {o : Operation}

/-- Operations of the loop that bear on nothing: no flash, no restore, and no failure after the timeout. -/
def Idle (o : Operation) : Prop :=
  (o = .handshake ∨ ∃ ok, o = .waited ok) ∨ ∃ ok passed, o = .sampled ok passed ∧
    (goldBiosLoadTimeout < passed → ok = true)

theorem restore_trace (r : RestoreEnv) :
    (restoreCpuAfterBiosUpdate r).trace = [.restore] ∧ r.cardFd = false ∨
      ∃ l, (restoreCpuAfterBiosUpdate r).trace = .restore :: .disableGoldBios :: l ∧ r.cardFd = true ∧
        ∀ o ∈ l, o = .holdPowerButton ∨ o = .togglePowerButton := by
  obtain ⟨cardFd, disable, hold, toggle⟩ := r
  cases cardFd
  · exact Or.inl ⟨rfl, rfl⟩
  · refine Or.inr ?_
    cases disable
    · exact ⟨[], rfl, rfl, nofun⟩
    · cases hold
      · exact ⟨[.holdPowerButton], rfl, rfl, by simp⟩
      · exact ⟨[.holdPowerButton, .togglePowerButton], rfl, rfl, by simp⟩

theorem restore_ended (r : RestoreEnv) : (restoreCpuAfterBiosUpdate r).ignore.result = some true := by
  obtain ⟨cardFd, disable, hold, toggle⟩ := r
  cases cardFd <;> cases disable <;> cases hold <;> rfl

theorem waitForGoldBios_succ {state : Bool} (h : env.handshake i = some state) :
    waitForGoldBios env (passes + 1) i = after (.handshake :: .sampled state (env.passed i) ::
      if goldBiosLoadTimeout < env.passed i then (restoreCpuAfterBiosUpdate (env.restoreInLoop i)).trace else [])
      (if state then record (.waited true) else waitForGoldBios env passes (i + 1)) := by
  rw [waitForGoldBios, h]
  dsimp only
  split_ifs with hlate
  · rw [andThen_of_true (restore_ended _), after_after]
    rfl
  · rw [andThen_of_true (restore_ended _), after_after]
    rfl
  · rw [check_true_andThen]
  · rw [check_true_andThen]

theorem tryIoctlWithImg_mem {tries : ℕ} (h : o ∈ (tryIoctlWithImg env tries i).trace) :
    o = .flashBios ∨ o = .reset := by
  induction tries generalizing i with
  | zero => cases h
  | succ tries ih =>
    rw [tryIoctlWithImg] at h
    split_ifs at h
    · exact Or.inl (List.mem_singleton.mp h)
    · rw [after_trace, List.mem_append, mem_trace_andThen] at h
      rcases h with h | h | ⟨-, h⟩
      · simpa using h
      · cases h
      · exact ih h

/-- A flash succeeds in one of the tries. -/
theorem tryIoctlWithImg_result {tries : ℕ} :
    (tryIoctlWithImg env tries i).result = some true ↔
      ∃ k < tries, (∀ j < k, env.tryHandshake (i + j) = true) ∧ env.flashBios (i + k) = true := by
  induction tries generalizing i with
  | zero => simp [tryIoctlWithImg, check]
  | succ tries ih =>
    rw [tryIoctlWithImg]
    split_ifs with hflash
    · exact iff_of_true rfl ⟨0, Nat.succ_pos _, nofun, hflash⟩
    · rw [after_result]
      cases htry : env.tryHandshake i with
      | false =>
        refine iff_of_false nofun ?_
        rintro ⟨k, -, hall, hk⟩
        cases k with
        | zero => exact hflash hk
        | succ k => exact absurd (hall 0 (Nat.succ_pos _)) (by simp [htry])
      | true =>
        rw [check_true_andThen, ih]
        constructor
        · rintro ⟨k, hk, hall, hflash'⟩
          refine ⟨k + 1, Nat.succ_lt_succ hk, fun j hj ↦ ?_, by rwa [Nat.add_right_comm, Nat.add_assoc] at hflash'⟩
          cases j with
          | zero => exact htry
          | succ j =>
            have := hall j (Nat.lt_of_succ_lt_succ hj)
            rwa [Nat.add_right_comm, Nat.add_assoc] at this
        · rintro ⟨k, hk, hall, hflash'⟩
          cases k with
          | zero => exact absurd hflash' hflash
          | succ k =>
            refine ⟨k, Nat.lt_of_succ_lt_succ hk, fun j hj ↦ ?_, by rwa [Nat.add_right_comm, Nat.add_assoc]⟩
            have := hall (j + 1) (Nat.succ_lt_succ hj)
            rwa [Nat.add_right_comm, Nat.add_assoc]

theorem tryIoctlWithImg_result_iff_not_flashFails :
    (tryIoctlWithImg env afterHandshakeResetTries 0).result = some true ↔ ¬ FlashFails env := by
  rw [tryIoctlWithImg_result, FlashFails]
  simp

theorem flashNode_of_waits (h : env.cardType.hasGoldBios = true) (hcpu : env.cpuFd = true) :
    flashNode env .recoverBios = after (if env.sgxEnabled then [.disableSgx] else [])
      ((tryIoctlWithImg env afterHandshakeResetTries 0).andThen (restoreCpuAfterBiosUpdate env.restore)) := by
  have hproduction : env.cardType.production = true := by
    revert h
    cases env.cardType <;> simp [CardType.hasGoldBios, CardType.production]
  rw [flashNode, hcpu, hproduction, check_true_andThen]
  split_ifs
  · rw [record_andThen, check_true_andThen]
  · rw [check_true_andThen, check_true_andThen, after_nil]

theorem flashNode_of_cpuFd (hcpu : env.cpuFd = false) : (flashNode env .recoverBios).trace = [] := by
  rw [flashNode, hcpu, check_false_andThen]
  rfl

/-- The first operation on a node that is flashed is the flash, but for the setting of SGX. -/
theorem flashBios_first (env : RecoveryEnv) :
    ∃ l, (tryIoctlWithImg env afterHandshakeResetTries 0).trace = .flashBios :: l := by
  rw [afterHandshakeResetTries, tryIoctlWithImg]
  split_ifs
  · exact ⟨[], rfl⟩
  · exact ⟨_, rfl⟩

/-- The node is booted with the gold BIOS before the loop. -/
def bootTrace : List Operation := [.enableGoldBios true, .holdPowerButton, .togglePowerButton]

theorem updateBios_of_waits (h : Waits env) : updateBios env .recoverBios passes =
    after bootTrace ((waitForGoldBios env passes 0).andThen (flashNode env .recoverBios)) := by
  obtain ⟨htype, himage, hcard, henable, hhold, htoggle, hcpu⟩ := h
  simp [updateBios, setupBiosRecovery, bootGoldBios, htype, himage, hcard, henable, hhold, htoggle, hcpu, bootTrace]

/-- If the loop is not reached, nothing but the first steps is performed. -/
theorem updateBios_of_not_waits (h : ¬ Waits env) (ho : o ∈ (updateBios env .recoverBios passes).trace) :
    (∃ ok, o = .enableGoldBios ok) ∨ o = .holdPowerButton ∨ o = .togglePowerButton := by
  have hboot : (bootGoldBios env).result = some true → env.cardFd = true ∧ env.enableGoldBios = true ∧
      env.holdPowerButton = true ∧ env.togglePowerButton = true := by
    simp [bootGoldBios, andThen_result]
  have hbootMem : o ∈ (bootGoldBios env).trace →
      (∃ ok, o = .enableGoldBios ok) ∨ o = .holdPowerButton ∨ o = .togglePowerButton := by
    simp only [bootGoldBios, mem_trace_andThen, check_trace, op_trace, List.mem_singleton, List.not_mem_nil, false_or]
    rintro ⟨-, rfl | ⟨-, rfl | ⟨-, rfl⟩⟩⟩
    · exact Or.inl ⟨_, rfl⟩
    · exact Or.inr (Or.inl rfl)
    · exact Or.inr (Or.inr rfl)
  have hwaits (htype : env.cardType.hasGoldBios = true) (himage : env.imageMapped = true)
      (hresult : (bootGoldBios env).result = some true) (hcpu : env.waitCpuFd = true) : Waits env := by
    obtain ⟨hcard, henable, hhold, htoggle⟩ := hboot hresult
    exact ⟨htype, himage, hcard, henable, hhold, htoggle, hcpu⟩
  simp only [updateBios, setupBiosRecovery, mem_trace_andThen, andThen_result, check_trace, check_result,
    List.not_mem_nil, false_or, Option.some.injEq, if_true, ne_eq, not_true_eq_false, decide_false, Bool.false_or] at ho
  obtain ⟨htype, -, himage, (ho | ⟨hresult, hcpu, -⟩) | ⟨⟨hresult, hcpu, -⟩, -⟩⟩ := ho
  · exact hbootMem ho
  · exact absurd (hwaits htype himage hresult hcpu) h
  · exact absurd (hwaits htype himage hresult hcpu) h

/-! ## The loop -/

/-- If every late handshake succeeds, a restore can only be the end of the loop. -/
theorem waitForGoldBios_trace (h : ∀ i, Late env i → env.handshake i = some true)
    (hj : ∀ k < j, env.handshake k = some false) :
    (∀ o ∈ (waitForGoldBios env passes j).trace, Idle o) ∨ ∃ i l l', Late env i ∧
      (waitForGoldBios env passes j).trace = l ++ ((restoreCpuAfterBiosUpdate (env.restoreInLoop i)).trace ++ l') ∧
      (∀ o ∈ l, Idle o) ∧ ∀ o ∈ l', Idle o := by
  have hhandshake : Idle .handshake := Or.inl (Or.inl rfl)
  have hwaited (ok : Bool) : Idle (.waited ok) := Or.inl (Or.inr ⟨ok, rfl⟩)
  induction passes generalizing j with
  | zero => exact Or.inl nofun
  | succ passes ih =>
    cases hstate : env.handshake j with
    | none =>
      refine Or.inl fun o ho ↦ ?_
      simp only [waitForGoldBios, hstate, after_trace, op_trace, List.cons_append, List.nil_append, List.mem_cons,
        List.not_mem_nil, or_false] at ho
      rcases ho with rfl | rfl
      · exact hhandshake
      · exact hwaited false
    | some state =>
      rw [waitForGoldBios_succ hstate, after_trace]
      by_cases hlate : goldBiosLoadTimeout < env.passed j
      · -- the handshake has succeeded, so that this pass is the last
        have hjlate : Late env j := ⟨hj, by simp [hstate], hlate⟩
        obtain rfl : state = true := Option.some.inj (hstate.symm.trans (h j hjlate))
        refine Or.inr ⟨j, [.handshake, .sampled true (env.passed j)], [.waited true], hjlate, ?_, ?_, ?_⟩
        · rw [if_pos hlate, if_pos rfl]
          rfl
        · intro o ho
          rcases List.mem_cons.mp ho with rfl | ho
          · exact hhandshake
          · rw [List.mem_singleton.mp ho]
            exact Or.inr ⟨_, _, rfl, fun _ ↦ rfl⟩
        · intro o ho
          rw [List.mem_singleton.mp ho]
          exact hwaited true
      · have hsampled : Idle (.sampled state (env.passed j)) :=
          Or.inr ⟨_, _, rfl, fun hpassed ↦ absurd hpassed hlate⟩
        have hfirst : ∀ o ∈ [Operation.handshake, .sampled state (env.passed j)], Idle o := by
          intro o ho
          rcases List.mem_cons.mp ho with rfl | ho
          · exact hhandshake
          · rw [List.mem_singleton.mp ho]
            exact hsampled
        rw [if_neg hlate]
        cases state with
        | true =>
          refine Or.inl fun o ho ↦ ?_
          rcases List.mem_append.mp ho with ho | ho
          · exact hfirst o ho
          · rw [List.mem_singleton.mp ho]
            exact hwaited true
        | false =>
          have hj' : ∀ k < j + 1, env.handshake k = some false := by
            intro k hk
            rcases Nat.lt_succ_iff_lt_or_eq.mp hk with hk | rfl
            · exact hj k hk
            · exact hstate
          rcases ih hj' with hidle | ⟨i, l, l', hi, htrace, hl, hl'⟩
          · refine Or.inl fun o ho ↦ ?_
            rcases List.mem_append.mp ho with ho | ho
            · exact hfirst o ho
            · exact hidle o ho
          · refine Or.inr ⟨i, [Operation.handshake, .sampled false (env.passed j)] ++ l, l', hi, ?_, fun o ho ↦ ?_, hl'⟩
            · rw [if_neg Bool.false_ne_true, htrace, List.append_assoc]
            · rcases List.mem_append.mp ho with ho | ho
              · exact hfirst o ho
              · exact hl o ho

/-- The loop comes to a pass if the handshakes before fail. -/
theorem waitForGoldBios_reaches (h : ∀ k < i, env.handshake k = some false) :
    ∃ l, ∀ passes, waitForGoldBios env (i + passes) 0 = after l (waitForGoldBios env passes i) := by
  induction i with
  | zero => exact ⟨[], fun passes ↦ by rw [Nat.zero_add, after_nil]⟩
  | succ i ih =>
    obtain ⟨l, hl⟩ := ih fun k hk ↦ h k (Nat.lt_succ_of_lt hk)
    refine ⟨l ++ Operation.handshake :: .sampled false (env.passed i) ::
      if goldBiosLoadTimeout < env.passed i then (restoreCpuAfterBiosUpdate (env.restoreInLoop i)).trace else [],
      fun passes ↦ ?_⟩
    rw [Nat.add_assoc, hl, Nat.add_comm 1, waitForGoldBios_succ (h i (Nat.lt_succ_self i)), if_neg Bool.false_ne_true,
      after_after]

/-! ## The condition is enough -/

theorem Idle.ne_flashBios (h : Idle o) : o ≠ .flashBios := by
  rintro rfl
  rcases h with (h | ⟨_, h⟩) | ⟨_, _, h, -⟩ <;> cases h

theorem Idle.ne_restore (h : Idle o) : o ≠ .restore := by
  rintro rfl
  rcases h with (h | ⟨_, h⟩) | ⟨_, _, h, -⟩ <;> cases h

theorem Idle.goldSelected (h : Idle o) (gold : Bool) : goldSelected gold o = gold := by
  rcases h with (rfl | ⟨_, rfl⟩) | ⟨_, _, rfl, -⟩ <;> rfl

theorem restore_mem {r : RestoreEnv} (h : o ∈ (restoreCpuAfterBiosUpdate r).trace) :
    o = .restore ∨ o = .disableGoldBios ∨ o = .holdPowerButton ∨ o = .togglePowerButton := by
  rcases restore_trace r with ⟨htrace, -⟩ | ⟨l, htrace, -, hl⟩
  · rw [htrace, List.mem_singleton] at h
    exact Or.inl h
  · rw [htrace, List.mem_cons, List.mem_cons] at h
    rcases h with h | h | h
    · exact Or.inl h
    · exact Or.inr (Or.inl h)
    · exact Or.inr (Or.inr (hl o h))

theorem restore_count (r : RestoreEnv) : (restoreCpuAfterBiosUpdate r).trace.count .restore = 1 := by
  rcases restore_trace r with ⟨htrace, -⟩ | ⟨l, htrace, -, hl⟩
  · rw [htrace]
    rfl
  · have hnone : l.count .restore = 0 := by
      refine List.count_eq_zero.mpr fun hmem ↦ ?_
      rcases hl _ hmem with h | h <;> cases h
    rw [htrace, List.count_cons_self, List.count_cons_of_ne (by decide), hnone]

theorem flashNode_trace (h : env.cardType.hasGoldBios = true) :
    ∃ l l', (flashNode env .recoverBios).trace = l ++ l' ∧
      (∀ o ∈ l, o = .disableSgx ∨ o = .flashBios ∨ o = .reset) ∧ (env.cpuFd = false → l = []) ∧
      (l' = [] ∨ env.cpuFd = true ∧ ¬ FlashFails env ∧ l' = (restoreCpuAfterBiosUpdate env.restore).trace) := by
  cases hcpu : env.cpuFd with
  | false => exact ⟨[], [], flashNode_of_cpuFd hcpu, nofun, fun _ ↦ rfl, Or.inl rfl⟩
  | true =>
    rw [flashNode_of_waits h hcpu, after_trace]
    obtain ⟨l', htrace, hl'⟩ := andThen_trace (a := tryIoctlWithImg env afterHandshakeResetTries 0)
      (b := restoreCpuAfterBiosUpdate env.restore)
    refine ⟨_, l', by rw [htrace, ← List.append_assoc], fun o ho ↦ ?_, nofun, hl'.imp_right ?_⟩
    · rcases List.mem_append.mp ho with ho | ho
      · split_ifs at ho
        · exact Or.inl (List.mem_singleton.mp ho)
        · cases ho
      · exact Or.inr (tryIoctlWithImg_mem ho)
    · rintro ⟨hresult, rfl⟩
      exact ⟨rfl, tryIoctlWithImg_result_iff_not_flashFails.mp hresult, rfl⟩

/-- The trace of a recovery, if the condition is met: the loop, with at most one restore, and then the flash,
with at most one. -/
theorem recovery_trace (passes : ℕ) (hwaits : Waits env) (h : TimelyGoldBios env) :
    ∃ w f f', (updateBios env .recoverBios passes).trace = bootTrace ++ (w ++ (f ++ f')) ∧
      (∀ o ∈ f, o = .disableSgx ∨ o = .flashBios ∨ o = .reset) ∧
      (f' = [] ∨ f' = (restoreCpuAfterBiosUpdate env.restore).trace) ∧
      ((∀ o ∈ w, Idle o) ∨ f' = [] ∧
        ∃ i l l', w = l ++ ((restoreCpuAfterBiosUpdate (env.restoreInLoop i)).trace ++ l') ∧
        (∀ o ∈ l, Idle o) ∧ (∀ o ∈ l', Idle o) ∧ (f = [] ∨ (env.restoreInLoop i).cardFd = false)) := by
  have htrace : ∃ f f', (updateBios env .recoverBios passes).trace =
      bootTrace ++ ((waitForGoldBios env passes 0).trace ++ (f ++ f')) ∧
      (∀ o ∈ f, o = .disableSgx ∨ o = .flashBios ∨ o = .reset) ∧ (env.cpuFd = false → f = []) ∧
      (f' = [] ∨ env.cpuFd = true ∧ ¬ FlashFails env ∧ f' = (restoreCpuAfterBiosUpdate env.restore).trace) := by
    obtain ⟨l, hl, hflash⟩ := andThen_trace (a := waitForGoldBios env passes 0) (b := flashNode env .recoverBios)
    rw [updateBios_of_waits hwaits, after_trace, hl]
    rcases hflash with rfl | ⟨-, rfl⟩
    · exact ⟨[], [], rfl, nofun, fun _ ↦ rfl, Or.inl rfl⟩
    · obtain ⟨f, f', hf, hrest⟩ := flashNode_trace hwaits.1
      exact ⟨f, f', by rw [hf], hrest⟩
  obtain ⟨f, f', htrace, hf, hnone, hf'⟩ := htrace
  refine ⟨_, f, f', htrace, hf, hf'.imp_right fun h ↦ h.2.2, ?_⟩
  rcases waitForGoldBios_trace (fun i hi ↦ (h hwaits i hi).1)
    (fun k hk ↦ absurd hk (Nat.not_lt_zero k)) with hidle | ⟨i, l, l', hi, hw, hl, hl'⟩
  · exact Or.inl hidle
  · refine Or.inr ⟨?_, i, l, l', hw, hl, hl', ?_⟩
    · rcases hf' with hnil | ⟨hcpu, hflash, -⟩
      · exact hnil
      · rcases (h hwaits i hi).2 with hcpu' | ⟨-, hfails⟩
        · rw [hcpu] at hcpu'
          exact Bool.noConfusion hcpu'
        · exact absurd hfails hflash
    · rcases (h hwaits i hi).2 with hcpu | ⟨hfd, -⟩
      · exact Or.inl (hnone hcpu)
      · exact Or.inr hfd

theorem monitored_of_not_flash {gold : Bool} {l : List Operation} (h : .flashBios ∉ l) :
    Monitored goldSelected FlashPermitted gold l := by
  refine monitored_of_permitted fun o ho q hflash ↦ ?_
  exact absurd (hflash ▸ ho) h

theorem monitored_idle (gold : Bool) {l : List Operation} (h : ∀ o ∈ l, Idle o) :
    Monitored goldSelected FlashPermitted gold l ∧ l.foldl goldSelected gold = gold :=
  ⟨monitored_of_not_flash fun hmem ↦ (h _ hmem).ne_flashBios rfl,
    foldl_eq_of_forall fun o ho ↦ (h o ho).goldSelected gold⟩

theorem restore_not_flash {r : RestoreEnv} : .flashBios ∉ (restoreCpuAfterBiosUpdate r).trace := by
  intro hmem
  rcases restore_mem hmem with h | h | h | h <;> cases h

/-- Under the condition no handshake fails after the timeout. -/
theorem sampled_of_timely (hwaits : Waits env) (h : TimelyGoldBios env) {ok : Bool} {passed : UInt32}
    (hmem : .sampled ok passed ∈ (updateBios env .recoverBios passes).trace)
    (hlate : goldBiosLoadTimeout < passed) : ok = true := by
  obtain ⟨w, f, f', htrace, hf, hf', hw⟩ := recovery_trace passes hwaits h
  have hrestore {r : RestoreEnv} : .sampled ok passed ∉ (restoreCpuAfterBiosUpdate r).trace := by
    intro hmem
    rcases restore_mem hmem with h | h | h | h <;> cases h
  have hidle {o : Operation} (ho : Idle o) (heq : o = .sampled ok passed) : ok = true := by
    subst heq
    rcases ho with (h | ⟨_, h⟩) | ⟨_, _, h, hok⟩
    · cases h
    · cases h
    · cases h
      exact hok hlate
  rw [htrace, List.mem_append, List.mem_append, List.mem_append] at hmem
  rcases hmem with hmem | hmem | hmem | hmem
  · simp [bootTrace] at hmem
  · rcases hw with hw | ⟨-, i, l, l', rfl, hl, hl', -⟩
    · exact hidle (hw _ hmem) rfl
    · rw [List.mem_append, List.mem_append] at hmem
      rcases hmem with hmem | hmem | hmem
      · exact hidle (hl _ hmem) rfl
      · exact absurd hmem hrestore
      · exact hidle (hl' _ hmem) rfl
  · rcases hf _ hmem with h | h | h <;> cases h
  · rcases hf' with rfl | rfl
    · cases hmem
    · exact absurd hmem hrestore

theorem gold_of_timely (hwaits : Waits env) (h : TimelyGoldBios env) :
    Monitored goldSelected FlashPermitted false (updateBios env .recoverBios passes).trace := by
  obtain ⟨w, f, f', htrace, hf, hf', hw⟩ := recovery_trace passes hwaits h
  have hboot : Monitored goldSelected FlashPermitted false bootTrace := monitored_of_not_flash (by decide)
  have hflash : Monitored goldSelected FlashPermitted true f := by
    refine monitored_of_forall fun o ho ↦ ?_
    rcases hf o ho with rfl | rfl | rfl <;> exact ⟨rfl, fun _ ↦ rfl⟩
  have hlast {gold : Bool} : Monitored goldSelected FlashPermitted gold f' := by
    refine monitored_of_not_flash ?_
    rcases hf' with rfl | rfl
    · exact List.not_mem_nil
    · exact restore_not_flash
  rw [htrace, monitored_append, monitored_append, monitored_append]
  refine ⟨hboot, ?_⟩
  change Monitored goldSelected FlashPermitted true w ∧
    Monitored _ _ (w.foldl goldSelected true) f ∧ Monitored _ _ _ f'
  rcases hw with hw | ⟨-, i, l, l', rfl, hl, hl', hnone⟩
  · obtain ⟨hmon, hfold⟩ := monitored_idle true hw
    rw [hfold]
    exact ⟨hmon, hflash, hlast⟩
  · have hmon : Monitored goldSelected FlashPermitted true
        (l ++ ((restoreCpuAfterBiosUpdate (env.restoreInLoop i)).trace ++ l')) := by
      refine monitored_of_not_flash fun hmem ↦ ?_
      rw [List.mem_append, List.mem_append] at hmem
      rcases hmem with hmem | hmem | hmem
      · exact (hl _ hmem).ne_flashBios rfl
      · exact restore_not_flash hmem
      · exact (hl' _ hmem).ne_flashBios rfl
    refine ⟨hmon, ?_, hlast⟩
    rcases hnone with rfl | hfd
    · trivial
    · -- the gold BIOS was not disabled
      rcases restore_trace (env.restoreInLoop i) with ⟨hrestore, -⟩ | ⟨_, -, hfd', -⟩
      · rw [List.foldl_append, List.foldl_append, (monitored_idle _ hl).2, hrestore, List.foldl_cons, List.foldl_nil]
        change Monitored _ _ (l'.foldl goldSelected true) f
        rw [(monitored_idle _ hl').2]
        exact hflash
      · rw [hfd] at hfd'
        exact Bool.noConfusion hfd'

theorem count_idle {l : List Operation} (h : ∀ o ∈ l, Idle o) : l.count .restore = 0 :=
  List.count_eq_zero.mpr fun hmem ↦ (h _ hmem).ne_restore rfl

theorem restore_of_timely (hwaits : Waits env) (h : TimelyGoldBios env) :
    (updateBios env .recoverBios passes).trace.count .restore ≤ 1 := by
  obtain ⟨w, f, f', htrace, hf, hf', hw⟩ := recovery_trace passes hwaits h
  have hboot : bootTrace.count .restore = 0 := by decide
  have hflash : f.count .restore = 0 := by
    refine List.count_eq_zero.mpr fun hmem ↦ ?_
    rcases hf _ hmem with h | h | h <;> cases h
  have hlast : f'.count .restore ≤ 1 := by
    rcases hf' with rfl | rfl
    · exact Nat.zero_le _
    · exact Nat.le_of_eq (restore_count _)
  rw [htrace, List.count_append, List.count_append, List.count_append, hboot, hflash]
  rcases hw with hw | ⟨rfl, i, l, l', rfl, hl, hl', -⟩
  · rw [count_idle hw]
    omega
  · have hloop := restore_count (env.restoreInLoop i)
    have hidle := count_idle hl
    have hidle' := count_idle hl'
    rw [List.count_append, List.count_append, List.count_nil]
    omega

/-- **The condition is enough.** -/
theorem safeRecovery_of_timely (h : TimelyGoldBios env) : SafeRecovery env := by
  by_cases hwaits : Waits env
  · refine ⟨fun _ ↦ gold_of_timely hwaits h, fun passes before passed rest htrace hlate ↦ ?_,
      fun _ ↦ restore_of_timely hwaits h⟩
    have hmem : .sampled false passed ∈ (updateBios env .recoverBios passes).trace := by
      rw [htrace]
      exact List.mem_append_right _ List.mem_cons_self
    exact Bool.noConfusion (sampled_of_timely hwaits h hmem hlate)
  · refine ⟨fun passes ↦ monitored_of_not_flash fun hmem ↦ ?_, fun passes before passed rest htrace _ ↦ ?_,
      fun passes ↦ ?_⟩
    · rcases updateBios_of_not_waits hwaits hmem with ⟨_, h⟩ | h | h <;> cases h
    · have hmem : .sampled false passed ∈ (updateBios env .recoverBios passes).trace := by
        rw [htrace]
        exact List.mem_append_right _ List.mem_cons_self
      rcases updateBios_of_not_waits hwaits hmem with ⟨_, h⟩ | h | h <;> cases h
    · have hnone : .restore ∉ (updateBios env .recoverBios passes).trace := by
        intro hmem
        rcases updateBios_of_not_waits hwaits hmem with ⟨_, h⟩ | h | h <;> cases h
      rw [List.count_eq_zero.mpr hnone]
      exact Nat.zero_le _

/-! ## The condition is needed -/

/-- The trace up to a late pass, and from there on. -/
theorem updateBios_late (hwaits : Waits env) (hi : Late env i) {state : Bool} (hstate : env.handshake i = some state) :
    ∃ l, ∀ passes, updateBios env .recoverBios (i + (passes + 1)) =
      after (l ++ Operation.handshake :: .sampled state (env.passed i) ::
        (restoreCpuAfterBiosUpdate (env.restoreInLoop i)).trace)
      ((if state then record (.waited true) else waitForGoldBios env passes (i + 1)).andThen
        (flashNode env .recoverBios)) := by
  obtain ⟨l, hl⟩ := waitForGoldBios_reaches hi.1
  refine ⟨bootTrace ++ l, fun passes ↦ ?_⟩
  rw [updateBios_of_waits hwaits, hl, waitForGoldBios_succ hstate, if_pos hi.2.2, after_after, after_andThen,
    after_after, List.append_assoc]

/-- A handshake that fails after the timeout is not the last. -/
theorem handshake_of_safe (h : SafeRecovery env) (hwaits : Waits env) (hi : Late env i) :
    env.handshake i = some true := by
  cases hstate : env.handshake i with
  | none => exact absurd hstate hi.2.1
  | some state =>
    cases state with
    | true => rfl
    | false =>
      obtain ⟨l, hl⟩ := updateBios_late hwaits hi hstate
      -- there is another pass, which begins with a handshake
      have hnext : ∃ rest, ((waitForGoldBios env 1 (i + 1)).andThen (flashNode env .recoverBios)).trace =
          .handshake :: rest := by
        rw [waitForGoldBios]
        split
        · exact ⟨_, by rw [after_andThen, after_trace]; rfl⟩
        · exact ⟨_, by rw [after_andThen, after_trace]; rfl⟩
      obtain ⟨rest, hrest⟩ := hnext
      have htrace : (updateBios env .recoverBios (i + (1 + 1))).trace = (l ++ [Operation.handshake]) ++
          .sampled false (env.passed i) ::
            ((restoreCpuAfterBiosUpdate (env.restoreInLoop i)).trace ++ Operation.handshake :: rest) := by
        rw [hl, after_trace, if_neg Bool.false_ne_true, hrest]
        simp
      have hnot := (h.timeout _ _ _ _ htrace hi.2.2).1
      exact absurd (List.mem_append_right _ List.mem_cons_self) hnot

/-- Once the gold BIOS is disabled, nothing but enabling it selects it. -/
theorem foldl_goldSelected_disabled {gold : Bool} {l l' : List Operation}
    (h : ∀ o ∈ l', ∀ ok, o ≠ .enableGoldBios ok) :
    (l ++ Operation.disableGoldBios :: l').foldl goldSelected gold = false := by
  rw [List.foldl_append, List.foldl_cons]
  change l'.foldl goldSelected false = false
  refine foldl_eq_of_forall fun o ho ↦ ?_
  cases o with
  | enableGoldBios ok => exact absurd rfl (h _ ho ok)
  | _ => rfl

/-- **The condition is needed.** -/
theorem timely_of_safeRecovery (h : SafeRecovery env) : TimelyGoldBios env := by
  intro hwaits i hi
  have hstate := handshake_of_safe h hwaits hi
  refine ⟨hstate, ?_⟩
  cases hcpu : env.cpuFd with
  | false => exact Or.inl rfl
  | true =>
    obtain ⟨l, hl⟩ := updateBios_late hwaits hi hstate
    obtain ⟨sgx, hsgx, hnode⟩ : ∃ sgx : List Operation, (∀ o ∈ sgx, o = .disableSgx) ∧
        flashNode env .recoverBios = after sgx ((tryIoctlWithImg env afterHandshakeResetTries 0).andThen
          (restoreCpuAfterBiosUpdate env.restore)) := by
      refine ⟨_, fun o ho ↦ ?_, flashNode_of_waits hwaits.1 hcpu⟩
      split_ifs at ho
      · exact List.mem_singleton.mp ho
      · cases ho
    have htrace : (updateBios env .recoverBios (i + (0 + 1))).trace =
        l ++ Operation.handshake :: .sampled true (env.passed i) ::
          (restoreCpuAfterBiosUpdate (env.restoreInLoop i)).trace ++
          (.waited true :: sgx ++ ((tryIoctlWithImg env afterHandshakeResetTries 0).andThen
            (restoreCpuAfterBiosUpdate env.restore)).trace) := by
      rw [hl, after_trace, if_pos rfl, record_andThen, hnode]
      rfl
    refine Or.inr ⟨?_, ?_⟩
    · -- the flash would find the gold BIOS disabled
      by_contra hfd
      rcases restore_trace (env.restoreInLoop i) with ⟨-, hfd'⟩ | ⟨m, hrestore, -, hm⟩
      · exact hfd hfd'
      · obtain ⟨f, hf⟩ := flashBios_first env
        obtain ⟨g, hg, -⟩ := andThen_trace (a := tryIoctlWithImg env afterHandshakeResetTries 0)
          (b := restoreCpuAfterBiosUpdate env.restore)
        have hgold := h.gold (i + (0 + 1))
        have hsplit : (updateBios env .recoverBios (i + (0 + 1))).trace =
            (l ++ [Operation.handshake, .sampled true (env.passed i), .restore] ++
              Operation.disableGoldBios :: (m ++ Operation.waited true :: sgx)) ++ Operation.flashBios :: (f ++ g) := by
          rw [htrace, hrestore, hg, hf]
          simp
        rw [hsplit, monitored_append, foldl_goldSelected_disabled] at hgold
        · exact Bool.noConfusion (hgold.2.1 rfl)
        · intro o ho ok heq
          subst heq
          rcases List.mem_append.mp ho with ho | ho
          · rcases hm _ ho with h | h <;> cases h
          · rcases List.mem_cons.mp ho with h | ho
            · cases h
            · cases hsgx _ ho
    · -- a flash that succeeds would be followed by another restore
      by_contra hfails
      have hcount := h.restore (i + (0 + 1))
      have hfirst : (Operation.handshake :: .sampled true (env.passed i) ::
          (restoreCpuAfterBiosUpdate (env.restoreInLoop i)).trace).count .restore = 1 := by
        simp [restore_count]
      rw [htrace, andThen_of_true (tryIoctlWithImg_result_iff_not_flashFails.mpr hfails), after_trace,
        List.count_append, List.count_append, List.count_append, List.count_append, restore_count,
        hfirst] at hcount
      omega

/-- **BIOS recovery.** A recovery flashes under the gold BIOS, does not wait on after the timeout and restores the
node at most once if and only if the gold BIOS is loaded in time. -/
theorem safeRecovery_iff (env : RecoveryEnv) : SafeRecovery env ↔ TimelyGoldBios env :=
  ⟨timely_of_safeRecovery, safeRecovery_of_timely⟩

/-- The node answers in the second pass only, and too late. -/
def slowCard : RecoveryEnv where
  cardType := .mv
  standardSetup := true
  imageMapped := true
  cardFd := true
  enableGoldBios := true
  holdPowerButton := true
  togglePowerButton := true
  waitCpuFd := true
  handshake i := some (i ≠ 0)
  passed i := 200001 + i.toUInt32
  restoreInLoop _ := ⟨true, true, true, true⟩
  cpuFd := true
  sgxEnabled := false
  flashBios _ := true
  tryHandshake _ := true
  restore := ⟨true, true, true, true⟩

/-- The node is restored twice, and flashed without the gold BIOS. -/
theorem slowCard_flashed_without_gold :
    ¬ SafeRecovery slowCard ∧ (updateBios slowCard .recoverBios 2).trace =
      [.enableGoldBios true, .holdPowerButton, .togglePowerButton, .handshake, .sampled false 200001,
        .restore, .disableGoldBios, .holdPowerButton, .togglePowerButton, .handshake, .sampled true 200002,
        .restore, .disableGoldBios, .holdPowerButton, .togglePowerButton, .waited true, .flashBios,
        .restore, .disableGoldBios, .holdPowerButton, .togglePowerButton] := by
  have htrace : (updateBios slowCard .recoverBios 2).trace =
      [.enableGoldBios true, .holdPowerButton, .togglePowerButton, .handshake, .sampled false 200001,
        .restore, .disableGoldBios, .holdPowerButton, .togglePowerButton, .handshake, .sampled true 200002,
        .restore, .disableGoldBios, .holdPowerButton, .togglePowerButton, .waited true, .flashBios,
        .restore, .disableGoldBios, .holdPowerButton, .togglePowerButton] := by decide
  refine ⟨fun h ↦ ?_, htrace⟩
  have hcount := h.restore 2
  rw [htrace] at hcount
  exact absurd hcount (by decide)

end Vcass.Vcactl
