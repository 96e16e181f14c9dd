import Mathlib.Data.Nat.Notation
import Vcass.Lib.Script

/-!
# Retries of a boot

`boot` sends one LBP command to the node. When it fails, the node is reset and has to answer a handshake before the
command is sent again; when the handshake fails, the node is reset too, and its link has to come up before the next
handshake; and each check of the link that fails resets the node once more.

There are two copies of the outer loop. They perform the same operations and differ in what they return after the
last try: `try_ioctl_with_img` gives up, and `try_ioctl_with_blk` reports success, although the node was just reset.

## Outcomes

The outcomes are given in advance, by the numbers of the tries of the loops around an operation. A reset is not
looked at by any of the loops.
-/

namespace Vcass.Vcactl.BootRetries

open Script

/-! ## The code -/

/-- What is asked of the node, with the outcome. -/
inductive Operation
  | command (ok : Bool)
  | handshake (ok : Bool)
  | checkForLinkUp (ok : Bool)
  | reset
  deriving DecidableEq, Repr

structure Outcomes where
  /-- The command, at each try. -/
  command : ℕ → Bool
  /-- The handshakes after a command that failed. -/
  handshake : ℕ → ℕ → Bool
  /-- The checks of the link after a handshake that failed. -/
  linkUp : ℕ → ℕ → ℕ → Bool

def afterHandshakeResetTries : ℕ := 3

def handshakeResetTries : ℕ := 3

def linkDownResetTries : ℕ := 3

/-- The loop of `try_link_up`, with a number of tries left. -/
def tryLinkUp (needReset : Bool) (linkUp : ℕ → Bool) : ℕ → ℕ → Script Operation
  | 0, _ => check false
  | tries + 1, i =>
    if linkUp i then record (.checkForLinkUp true)
    else after (.checkForLinkUp false :: if needReset then [.reset] else []) (tryLinkUp needReset linkUp tries (i + 1))

/-- The loop of `try_handshake`. -/
def tryHandshake (handshake : ℕ → Bool) (linkUp : ℕ → ℕ → Bool) : ℕ → ℕ → Script Operation
  | 0, _ => check false
  | tries + 1, i =>
    if handshake i then record (.handshake true)
    else after [.handshake false, .reset] <|
      (tryLinkUp true (linkUp i) linkDownResetTries 0).andThen (tryHandshake handshake linkUp tries (i + 1))

/-- The loop of both functions; they differ in what is returned when no try is left. -/
def tryIoctl (noTryLeft : Bool) (out : Outcomes) : ℕ → ℕ → Script Operation
  | 0, _ => check noTryLeft
  | tries + 1, i =>
    if out.command i then record (.command true)
    else after [.command false, .reset] <|
      (tryHandshake (out.handshake i) (out.linkUp i) handshakeResetTries 0).andThen
        (tryIoctl noTryLeft out tries (i + 1))

def tryIoctlWithImg (out : Outcomes) : Script Operation := tryIoctl false out afterHandshakeResetTries 0

def tryIoctlWithBlk (out : Outcomes) : Script Operation := tryIoctl true out afterHandshakeResetTries 0

/-! ## The property -/

def Operation.isCommand : Operation → Bool
  | .command _ => true
  | _ => false

/-- The last command succeeded, and no reset came after it. -/
def Commanded (l : List Operation) : Prop :=
  ∃ before since, l = before ++ Operation.command true :: since ∧ ∀ o ∈ since, o.isCommand = false ∧ o ≠ .reset

/-- Success is reported for a node that is left in the commanded state, and only for such a node, and there are not
more tries than configured. -/
structure Honest (s : Script Operation) : Prop where
  commanded : s.result = some true → Commanded s.trace
  failed : ¬ Commanded s.trace → s.result = some false
  tries : s.trace.countP Operation.isCommand ≤ afterHandshakeResetTries

/-- `try_handshake` succeeds: there is a handshake that does, and after each one before it the link comes up. -/
def Recovers (handshake : ℕ → Bool) (linkUp : ℕ → ℕ → Bool) : Prop :=
  ∃ i < handshakeResetTries, handshake i = true ∧ ∀ j < i, ∃ k < linkDownResetTries, linkUp j k = true

/-- All tries fail, and after each of them, the last one too, the node recovers. -/
def Exhausted (out : Outcomes) : Prop :=
  ∀ i < afterHandshakeResetTries, out.command i = false ∧ Recovers (out.handshake i) (out.linkUp i)

/-! ## The inner loops -/

variable {out : Outcomes} {handshake : ℕ → Bool} {linkUp : ℕ → Bool} {links : ℕ → ℕ → Bool} {needReset noTryLeft : Bool}
variable {tries i n : ℕ} {o : Operation} {l l' : List Operation}

/-- A loop ends with success at the first try that succeeds. -/
theorem exists_lt_add_succ {P : ℕ → Prop} : (∃ k < tries + 1, P (i + k)) ↔ P i ∨ ∃ k < tries, P (i + 1 + k) := by
  constructor
  · rintro ⟨k, hk, hP⟩
    cases k with
    | zero => exact Or.inl hP
    | succ k => exact Or.inr ⟨k, Nat.lt_of_succ_lt_succ hk, by rwa [Nat.add_assoc, Nat.add_comm 1 k]⟩
  · rintro (hP | ⟨k, hk, hP⟩)
    · exact ⟨0, Nat.succ_pos _, hP⟩
    · exact ⟨k + 1, Nat.succ_lt_succ hk, by rwa [Nat.add_comm k 1, ← Nat.add_assoc]⟩

theorem forall_lt_add_succ {P : ℕ → Prop} : (∀ k < tries + 1, P (i + k)) ↔ P i ∧ ∀ k < tries, P (i + 1 + k) := by
  have h := @exists_lt_add_succ tries i fun k ↦ ¬ P k
  simpa only [not_exists, not_and, not_not, not_or] using not_congr h

theorem tryLinkUp_result (tries i : ℕ) :
    (tryLinkUp needReset linkUp tries i).result = some true ↔ ∃ k < tries, linkUp (i + k) = true := by
  induction tries generalizing i with
  | zero => simp [tryLinkUp]
  | succ tries ih =>
    rw [tryLinkUp, exists_lt_add_succ (P := fun k ↦ linkUp k = true)]
    by_cases hlink : linkUp i = true
    · rw [if_pos hlink]
      exact iff_of_true rfl (Or.inl hlink)
    · rw [if_neg hlink, after_result, ih, or_iff_right hlink]

theorem tryLinkUp_ends (tries i : ℕ) : (tryLinkUp needReset linkUp tries i).result ≠ none := by
  induction tries generalizing i with
  | zero => exact Option.some_ne_none _
  | succ tries ih =>
    rw [tryLinkUp]
    by_cases hlink : linkUp i = true
    · rw [if_pos hlink]
      exact Option.some_ne_none _
    · rw [if_neg hlink]
      exact ih (i + 1)

theorem tryLinkUp_mem (h : o ∈ (tryLinkUp needReset linkUp tries i).trace) : o.isCommand = false := by
  induction tries generalizing i with
  | zero => exact absurd h List.not_mem_nil
  | succ tries ih =>
    rw [tryLinkUp] at h
    split at h
    · rw [List.mem_singleton.mp h]
      rfl
    · rcases List.mem_append.mp h with h | h
      · rcases List.mem_cons.mp h with rfl | h
        · rfl
        · split at h
          · rw [List.mem_singleton.mp h]
            rfl
          · exact absurd h List.not_mem_nil
      · exact ih h

theorem tryHandshake_result (tries i : ℕ) : (tryHandshake handshake links tries i).result = some true ↔
    ∃ k < tries, handshake (i + k) = true ∧ ∀ j < k, ∃ m < linkDownResetTries, links (i + j) m = true := by
  induction tries generalizing i with
  | zero => simp [tryHandshake]
  | succ tries ih =>
    rw [tryHandshake]
    by_cases hshake : handshake i = true
    · rw [if_pos hshake]
      exact iff_of_true rfl ⟨0, Nat.succ_pos _, hshake, nofun⟩
    · rw [if_neg hshake, after_result, andThen_result, tryLinkUp_result, ih]
      simp only [Nat.zero_add]
      constructor
      · rintro ⟨hlink, k, hk, hshake', hlinks⟩
        refine ⟨k + 1, Nat.succ_lt_succ hk, by rwa [Nat.add_comm k 1, ← Nat.add_assoc], ?_⟩
        exact forall_lt_add_succ (P := fun j ↦ ∃ m < linkDownResetTries, links j m = true).mpr ⟨hlink, hlinks⟩
      · rintro ⟨k, hk, hshake', hlinks⟩
        cases k with
        | zero => exact absurd hshake' hshake
        | succ k =>
          rw [forall_lt_add_succ (P := fun j ↦ ∃ m < linkDownResetTries, links j m = true)] at hlinks
          exact ⟨hlinks.1, k, Nat.lt_of_succ_lt_succ hk, by rwa [Nat.add_assoc, Nat.add_comm 1 k], hlinks.2⟩

theorem andThen_ends {a b : Script Operation} (ha : a.result ≠ none) (hb : b.result ≠ none) :
    (a.andThen b).result ≠ none := by
  by_cases h : a.result = some true
  · rwa [andThen_of_true h]
  · rwa [andThen_of_ne h]

theorem tryHandshake_ends (tries i : ℕ) : (tryHandshake handshake links tries i).result ≠ none := by
  induction tries generalizing i with
  | zero => exact Option.some_ne_none _
  | succ tries ih =>
    rw [tryHandshake]
    split
    · exact Option.some_ne_none _
    · exact andThen_ends (tryLinkUp_ends _ _) (ih (i + 1))

theorem tryHandshake_mem (h : o ∈ (tryHandshake handshake links tries i).trace) : o.isCommand = false := by
  induction tries generalizing i with
  | zero => exact absurd h List.not_mem_nil
  | succ tries ih =>
    rw [tryHandshake] at h
    split at h
    · rw [List.mem_singleton.mp h]
      rfl
    · rcases List.mem_append.mp h with h | h
      · have ho : o = .handshake false ∨ o = .reset := by simpa using h
        rcases ho with rfl | rfl <;> rfl
      · rcases mem_trace_andThen.mp h with h | ⟨-, h⟩
        · exact tryLinkUp_mem h
        · exact ih h

theorem tryHandshake_recovers :
    (tryHandshake handshake links handshakeResetTries 0).result = some true ↔ Recovers handshake links := by
  rw [tryHandshake_result, Recovers]
  simp only [Nat.zero_add]

/-! ## The outer loop -/

/-- The tries from a number on fail, and the node recovers after each. -/
def ExhaustedFrom (out : Outcomes) (tries i : ℕ) : Prop :=
  ∀ k < tries, out.command (i + k) = false ∧ Recovers (out.handshake (i + k)) (out.linkUp (i + k))

theorem exhaustedFrom_succ : ExhaustedFrom out (tries + 1) i ↔
    (out.command i = false ∧ Recovers (out.handshake i) (out.linkUp i)) ∧ ExhaustedFrom out tries (i + 1) :=
  forall_lt_add_succ (P := fun k ↦ out.command k = false ∧ Recovers (out.handshake k) (out.linkUp k))

/-- The ways in which the loop ends: at a command that succeeds, or with no command that does. -/
inductive Ended (noTryLeft : Bool) (out : Outcomes) (tries i : ℕ) (s : Script Operation) : Prop
  | commanded (before : List Operation) (htrace : s.trace = before ++ [.command true]) (hresult : s.result = some true)
      (hout : ¬ ExhaustedFrom out tries i)
  | failed (htrace : .command true ∉ s.trace) (hresult : s.result = some false) (hout : ¬ ExhaustedFrom out tries i)
  | exhausted (htrace : .command true ∉ s.trace) (hresult : s.result = some noTryLeft)
      (hout : ExhaustedFrom out tries i)

theorem tryIoctl_ended (tries i : ℕ) : Ended noTryLeft out tries i (tryIoctl noTryLeft out tries i) := by
  induction tries generalizing i with
  | zero => exact .exhausted List.not_mem_nil rfl nofun
  | succ tries ih =>
    rw [tryIoctl]
    cases hcommand : out.command i with
    | true =>
      exact .commanded [] rfl rfl fun h ↦ by simp [(exhaustedFrom_succ.mp h).1.1] at hcommand
    | false =>
      rw [if_neg Bool.false_ne_true]
      have hmem : Operation.command true ∉
          (tryHandshake (out.handshake i) (out.linkUp i) handshakeResetTries 0).trace := fun h ↦
        Bool.noConfusion (tryHandshake_mem h)
      by_cases hrec : Recovers (out.handshake i) (out.linkUp i)
      · -- the node has recovered, and the loop goes on
        have hiff : ExhaustedFrom out (tries + 1) i ↔ ExhaustedFrom out tries (i + 1) := by
          rw [exhaustedFrom_succ, and_iff_right ⟨hcommand, hrec⟩]
        rw [andThen_of_true (tryHandshake_recovers.mpr hrec), after_after]
        cases ih (i + 1) with
        | commanded before htrace hresult hout =>
          exact .commanded _ (by rw [after_trace, htrace, ← List.append_assoc]) hresult (hiff.not.mpr hout)
        | failed htrace hresult hout =>
          refine .failed ?_ hresult (hiff.not.mpr hout)
          simp [hmem, htrace]
        | exhausted htrace hresult hout =>
          refine .exhausted ?_ hresult (hiff.mpr hout)
          simp [hmem, htrace]
      · have hne := tryHandshake_recovers.not.mpr hrec
        rw [andThen_of_ne hne]
        refine .failed ?_ ?_ fun h ↦ hrec (exhaustedFrom_succ.mp h).1.2
        · simp [hmem]
        · obtain ⟨b, hb⟩ := Option.ne_none_iff_exists'.mp
            (@tryHandshake_ends (out.handshake i) (out.linkUp i) handshakeResetTries 0)
          rw [after_result, hb]
          rw [hb] at hne
          exact congrArg some (Bool.eq_false_iff.mpr fun h ↦ hne (congrArg some h))

/-- There is one command at each try. -/
theorem countP_tryIoctl (tries i : ℕ) : (tryIoctl noTryLeft out tries i).trace.countP Operation.isCommand ≤ tries := by
  induction tries generalizing i with
  | zero => exact Nat.le_refl 0
  | succ tries ih =>
    rw [tryIoctl]
    split
    · exact Nat.succ_le_succ (Nat.zero_le _)
    · have hshake : (tryHandshake (out.handshake i) (out.linkUp i) handshakeResetTries 0).trace.countP
          Operation.isCommand = 0 := by
        rw [List.countP_eq_zero]
        intro o ho
        rw [tryHandshake_mem ho]
        exact Bool.false_ne_true
      obtain ⟨l, hl, hrest⟩ := andThen_trace
        (a := tryHandshake (out.handshake i) (out.linkUp i) handshakeResetTries 0)
        (b := tryIoctl noTryLeft out tries (i + 1))
      have hle : l.countP Operation.isCommand ≤ tries := by
        rcases hrest with rfl | ⟨-, rfl⟩
        · exact Nat.zero_le _
        · exact ih (i + 1)
      rw [after_trace, hl, List.countP_append, List.countP_append, hshake, Nat.zero_add]
      have hfirst : [Operation.command false, .reset].countP Operation.isCommand = 1 := rfl
      omega

theorem not_commanded (h : .command true ∉ l) : ¬ Commanded l := by
  rintro ⟨before, since, rfl, -⟩
  simp at h

theorem commanded_concat (l : List Operation) : Commanded (l ++ [Operation.command true]) := ⟨l, [], rfl, nofun⟩

theorem exhaustedFrom_zero : ExhaustedFrom out afterHandshakeResetTries 0 ↔ Exhausted out := by
  simp only [ExhaustedFrom, Exhausted, Nat.zero_add]

theorem honest_tryIoctl :
    Honest (tryIoctl noTryLeft out afterHandshakeResetTries 0) ↔ noTryLeft = false ∨ ¬ Exhausted out := by
  have hcount := @countP_tryIoctl out noTryLeft afterHandshakeResetTries 0
  rw [← exhaustedFrom_zero]
  cases @tryIoctl_ended out noTryLeft afterHandshakeResetTries 0 with
  | commanded before htrace hresult hout =>
    have hcmd : Commanded (tryIoctl noTryLeft out afterHandshakeResetTries 0).trace := htrace ▸ commanded_concat before
    exact iff_of_true ⟨fun _ ↦ hcmd, fun h ↦ absurd hcmd h, hcount⟩ (Or.inr hout)
  | failed htrace hresult hout =>
    exact iff_of_true ⟨fun h ↦ by simp [hresult] at h, fun _ ↦ hresult, hcount⟩ (Or.inr hout)
  | exhausted htrace hresult hout =>
    rw [or_iff_left (not_not_intro hout)]
    constructor
    · intro h
      have hfalse := h.failed (not_commanded htrace)
      rwa [hresult, Option.some_inj] at hfalse
    · rintro rfl
      exact ⟨fun h ↦ by simp [hresult] at h, fun _ ↦ hresult, hcount⟩

/-! ## The results -/

/-- The loop for an image is honest for all outcomes, and the one for a block device unless the command fails at
every try and the node recovers each time. -/
theorem boot_retries_honest (out : Outcomes) :
    Honest (tryIoctlWithImg out) ∧ (Honest (tryIoctlWithBlk out) ↔ ¬ Exhausted out) := by
  refine ⟨honest_tryIoctl.mpr (Or.inl rfl), ?_⟩
  rw [tryIoctlWithBlk, honest_tryIoctl]
  exact or_iff_right fun h ↦ Bool.noConfusion h

/-- No command succeeds, and each handshake does at once. -/
def refusing : Outcomes := ⟨fun _ ↦ false, fun _ _ ↦ true, fun _ _ _ ↦ true⟩

/-- The node was reset last, and the loop reports success. -/
theorem boot_blk_after_reset :
    tryIoctlWithBlk refusing = ⟨[.command false, .reset, .handshake true, .command false, .reset, .handshake true,
      .command false, .reset, .handshake true], some true⟩ ∧ ¬ Honest (tryIoctlWithBlk refusing) := by
  refine ⟨by decide, fun h ↦ ?_⟩
  exact not_commanded (by decide) (h.commanded (by decide))

end Vcass.Vcactl.BootRetries
