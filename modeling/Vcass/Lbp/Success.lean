import Mathlib.Data.List.Nodup
import Vcass.Lbp.Code

/-!
# What the success of a boot or flash command means

A command that returns `LBP_STATE_OK` should have seen no error of the card, and its image should be in the
memory of the card when the card is told to use it. Both are read off the log of the command: every function
either fails or extends the log in one particular way, and on each of its ways out nothing is left mapped.

The exception is `plx_lbp_boot_from_usb`: its wait also ends on an error bit, which it does not look at.
-/

namespace Vcass.Lbp

/-! ## What is asked -/

def Event.written : Event → Option (UInt64 × UInt8)
  | .wrote addr byte => some (addr, byte)
  | _ => none

/-- The bytes that were written to the memory of the card. -/
def written (es : List Event) : List (UInt64 × UInt8) := es.filterMap Event.written

/-- Every byte of the image was written once to its place in the ramdisk. -/
def Delivered (ramdiskPh : UInt64) (img : Image) (es : List Event) : Prop :=
  ∀ i (h : i < img.bytes.length),
    (written es).filter (fun w ↦ w.1 = ramdiskPh + UInt64.ofNat i) = [(ramdiskPh + UInt64.ofNat i, img.bytes[i])]

/-- The image of a command and the word that makes the card use it. -/
def Command.image : Command → Option (Image × UInt32)
  | .bootRamdisk img => some (img, i7Cmd cmdBootRamdisk 0)
  | .flashBios img => some (img, i7Cmd cmdFlashBios 0)
  | .clearSmbEventLog img => some (img, i7Cmd cmdFlashBios 0)
  | .updateMacAddr img => some (img, i7Cmd cmdFlashFw 0)
  | .setSerialNumber img => some (img, i7Cmd cmdFlashFw 0)
  | .bootBlkdisk | .bootFromUsb => none

/-- The image is delivered before the word is placed in the command register. -/
def Sent (env : Env) (img : Image) (word : UInt32) (log : List Event) : Prop :=
  ∃ before after, log = before ++ Event.writeSpad .i7Cmd word :: after ∧ .writeSpad .i7Cmd word ∉ before ∧
    Delivered (ramdiskPh env) img before ∧ written after = []

/-- No wait has ended on an error. -/
def NoError (es : List Event) : Prop := ∀ w, .waited w ∈ es → w &&& i7AnyError = 0

/-- What a command returns can be relied upon. -/
structure Truthful (env : Env) (cmd : Command) (out : Int32 × Sys) : Prop where
  noError : out.1 = lbpStateOk → NoError out.2.log
  sent : out.1 = lbpStateOk → ∀ img word, cmd.image = some (img, word) → Sent env img word out.2.log
  released : out.2.mappings = []

/-- The wait for `state` ends on the `n`-th of the ready words. -/
def EndsAt (ready : ℕ → UInt32) (state : UInt32) (timeout n : ℕ) : Prop :=
  n < timeout ∧ inState state (readyBits (ready n)) ∧ ∀ m < n, ¬ inState state (readyBits (ready m))

/-- A boot from USB does not meet a card that raises an error bit. -/
def Unharmed (env : Env) (xdev : PlxDevice) : Command → Prop
  | .bootFromUsb =>
    env.programRidLut = 0 → ∀ n, EndsAt env.ready (i7Booting ||| i7AnyError) xdev.i7CmdTimeoutMs n →
      readyBits (env.ready n) &&& i7AnyError = 0
  | _ => True

/-! ## Codes -/

section Codes

variable {ready : UInt32}

theorem toInt32_nonneg (value : UInt32) : ¬ (readyBits value).toInt32 < 0 := by
  have hle : (readyBits value).toNat ≤ 0xffffff := by
    rw [readyBits, UInt32.toNat_and]
    exact Nat.and_le_right
  rw [Int32.lt_iff_toInt_lt, ← Int32.toInt_toBitVec, UInt32.toBitVec_toInt32]
  rw [BitVec.toInt_eq_toNat_of_lt]
  · exact Int.not_lt.mpr (Int.natCast_nonneg _)
  · rw [UInt32.toNat_toBitVec]
    omega

theorem anyError_toInt32 : anyError ready.toInt32 = false ↔ ready &&& i7AnyError = 0 := by
  rw [anyError, decide_eq_false_iff_not, not_not, ← UInt32.toInt32_and]
  constructor
  · intro h
    exact UInt32.toBitVec_inj.mp (congrArg Int32.toBitVec h)
  · intro h
    rw [h]
    rfl

theorem exitCode_eq_ok {err : Int32} (h : ¬ err < 0) : exitCode err = lbpStateOk ↔ anyError err = false := by
  rw [exitCode, if_neg h]
  cases anyError err with
  | false => exact iff_of_true rfl rfl
  | true => exact iff_of_false (by decide) (by decide)

theorem internalError_ne : lbpInternalError ≠ lbpStateOk := by decide

theorem neg_internalError_ne : -lbpInternalError ≠ lbpStateOk := by decide

theorem exitCode_internalError : exitCode (-lbpInternalError) ≠ lbpStateOk := by decide

theorem exitCode_allocTimeout : exitCode (-lbpAllocTimeout) ≠ lbpStateOk := by decide

theorem exitCode_cmdTimeout : exitCode (-lbpCmdTimeout) ≠ lbpStateOk := by decide

end Codes

/-! ## Waiting -/

section Wait

variable {env : Env} {state : UInt32} {timeout : ℕ} {s s' : Sys}

/-- Only the number of reads changes while a wait lasts. -/
theorem lbpWaitEvent_snd (env : Env) (state : UInt32) (timeout : ℕ) (s : Sys) :
    ∃ n, (lbpWaitEvent env state timeout s).2 = { s with reads := s.reads + n } := by
  induction timeout generalizing s with
  | zero => exact ⟨0, rfl⟩
  | succ timeout ih =>
    rw [lbpWaitEvent, plxLbpGetI7Status]
    dsimp only
    split_ifs
    · exact ⟨1, rfl⟩
    · obtain ⟨n, hn⟩ := ih { s with reads := s.reads + 1 }
      exact ⟨1 + n, by rw [hn, Nat.add_assoc]⟩

theorem endsAt_succ {ready : ℕ → UInt32} {n : ℕ} :
    EndsAt ready state (timeout + 1) (n + 1) ↔
      ¬ inState state (readyBits (ready 0)) ∧ EndsAt (fun m ↦ ready (m + 1)) state timeout n := by
  constructor
  · rintro ⟨hn, hend, hfirst⟩
    exact ⟨hfirst 0 (Nat.succ_pos n), Nat.lt_of_succ_lt_succ hn, hend,
      fun m hm ↦ hfirst (m + 1) (Nat.succ_lt_succ hm)⟩
  · rintro ⟨hzero, hn, hend, hfirst⟩
    refine ⟨Nat.succ_lt_succ hn, hend, fun m hm ↦ ?_⟩
    cases m with
    | zero => exact hzero
    | succ m => exact hfirst m (Nat.lt_of_succ_lt_succ hm)

theorem EndsAt.unique {ready : ℕ → UInt32} {n k : ℕ} (h : EndsAt ready state timeout n)
    (h' : EndsAt ready state timeout k) : n = k := by
  rcases Nat.lt_trichotomy n k with hlt | heq | hlt
  · exact absurd h.2.1 (h'.2.2 n hlt)
  · exact heq
  · exact absurd h'.2.1 (h.2.2 k hlt)

theorem lbpWaitEvent_eq_some {ready : UInt32} :
    (lbpWaitEvent env state timeout s).1 = some ready ↔
      ∃ n, EndsAt (fun m ↦ env.ready (s.reads + m)) state timeout n ∧ ready = readyBits (env.ready (s.reads + n)) := by
  induction timeout generalizing s with
  | zero =>
    refine iff_of_false nofun ?_
    rintro ⟨n, ⟨hn, -⟩, -⟩
    exact absurd hn (Nat.not_lt_zero n)
  | succ timeout ih =>
    rw [lbpWaitEvent, plxLbpGetI7Status]
    dsimp only
    split_ifs with hin
    · rw [Option.some_inj]
      constructor
      · rintro rfl
        exact ⟨0, ⟨Nat.succ_pos _, hin, fun m hm ↦ absurd hm (Nat.not_lt_zero m)⟩, rfl⟩
      · rintro ⟨n, ⟨-, -, hfirst⟩, rfl⟩
        cases n with
        | zero => rfl
        | succ n => exact absurd hin (hfirst 0 (Nat.succ_pos n))
    · -- The first word does not end the wait: the numbers move by one.
      have hshift (m : ℕ) : s.reads + 1 + m = s.reads + (m + 1) := by omega
      rw [ih]
      simp only [hshift]
      constructor
      · rintro ⟨n, hend, rfl⟩
        exact ⟨n + 1, endsAt_succ.mpr ⟨hin, hend⟩, rfl⟩
      · rintro ⟨n, hend, rfl⟩
        cases n with
        | zero => exact absurd hend.2.1 hin
        | succ n => exact ⟨n, (endsAt_succ.mp hend).2, rfl⟩

/-- How a wait goes. -/
inductive WaitCall (env : Env) (state : UInt32) (timeout : ℕ) (s : Sys) : Int32 × Sys → Prop
  | timeout (n : ℕ) (h : ∀ k, ¬ EndsAt (fun m ↦ env.ready (s.reads + m)) state timeout k) :
    WaitCall env state timeout s (-etime, { s with reads := s.reads + n })
  | ended (n k : ℕ) (h : EndsAt (fun m ↦ env.ready (s.reads + m)) state timeout k) :
    WaitCall env state timeout s ((readyBits (env.ready (s.reads + k))).toInt32,
      { s with reads := s.reads + n }.record [.waited (readyBits (env.ready (s.reads + k)))])

theorem wait_call (env : Env) (state : UInt32) (timeout : ℕ) (s : Sys) :
    WaitCall env state timeout s (plxLbpWaitForI7State env state timeout s) := by
  obtain ⟨n, hn⟩ := lbpWaitEvent_snd env state timeout s
  rw [plxLbpWaitForI7State]
  rcases hw : lbpWaitEvent env state timeout s with ⟨ready, s'⟩
  rw [hw] at hn
  obtain rfl : s' = { s with reads := s.reads + n } := hn
  cases ready with
  | none =>
    refine .timeout n fun k hend ↦ ?_
    have hsome := lbpWaitEvent_eq_some.mpr ⟨k, hend, rfl⟩
    rw [hw] at hsome
    cases hsome
  | some ready =>
    obtain ⟨k, hend, rfl⟩ := lbpWaitEvent_eq_some.mp (congrArg Prod.fst hw)
    exact .ended n k hend

/-- What the callers use of it. -/
theorem wait_spec {r : Int32 × Sys} (hr : plxLbpWaitForI7State env state timeout s = r) :
    r.2.mappings = s.mappings ∧
      ((r.1 < 0 ∧ r.2.log = s.log) ∨
        ∃ ready, ¬ r.1 < 0 ∧ (anyError r.1 = false ↔ ready &&& i7AnyError = 0) ∧
          r.2.log = s.log ++ [Event.waited ready]) := by
  subst hr
  have hcall := wait_call env state timeout s
  have hetime : -etime < 0 := by decide
  generalize plxLbpWaitForI7State env state timeout s = r at hcall ⊢
  cases hcall with
  | timeout n h => exact ⟨rfl, .inl ⟨hetime, rfl⟩⟩
  | ended n k h => exact ⟨rfl, .inr ⟨_, toInt32_nonneg _, anyError_toInt32, rfl⟩⟩

end Wait

/-! ## Sending an image -/

section Send

variable {env : Env} {xdev : PlxDevice} {s : Sys} {img : List UInt8} {ph out : UInt64}
  {offset chunkSize len k fuel : ℕ} {err : Int32}

/-- The writes that put `bytes` into the ramdisk from `offset` on. -/
def imageWrites (ph : UInt64) (offset : ℕ) (bytes : List UInt8) : List Event :=
  (bytes.zipIdx offset).map fun b ↦ .wrote (ph + UInt64.ofNat b.2) b.1

theorem imageWrites_append (bytes bytes' : List UInt8) :
    imageWrites ph offset (bytes ++ bytes') =
      imageWrites ph offset bytes ++ imageWrites ph (offset + bytes.length) bytes' := by
  rw [imageWrites, List.zipIdx_append, List.map_append, imageWrites, imageWrites]

theorem imageWrites_drop {n : ℕ} (hn : n ≤ img.length - offset) :
    imageWrites ph offset (img.drop offset) =
      imageWrites ph offset ((img.drop offset).take n) ++ imageWrites ph (offset + n) (img.drop (offset + n)) := by
  have hlength : ((img.drop offset).take n).length = n := by
    rw [List.length_take, List.length_drop]
    omega
  calc imageWrites ph offset (img.drop offset)
      = imageWrites ph offset ((img.drop offset).take n ++ (img.drop offset).drop n) := by
        rw [List.take_append_drop]
    _ = _ := by rw [imageWrites_append, hlength, List.drop_drop]

theorem cardAddr_single {i : ℕ} (hi : i < len) (hlen : len < 2 ^ 64) {pa : UInt64} :
    cardAddr [⟨out, pa, len⟩] (out + UInt64.ofNat i) = some (pa + UInt64.ofNat i) := by
  have hcancel : out + UInt64.ofNat i - out = UInt64.ofNat i := by grind
  have hin : (out + UInt64.ofNat i - out).toNat < len := by
    rw [hcancel, UInt64.toNat_ofNat_of_lt' (Nat.lt_trans hi hlen)]
    exact hi
  rw [cardAddr, List.find?_cons_of_pos (by exact decide_eq_true hin), Option.map_some, hcancel]

/-- Through the remapping of its chunk a byte gets to its place. -/
theorem writeAperture_eq {bytes : List UInt8} (hlen : bytes.length ≤ len) (h64 : len < 2 ^ 64) :
    writeAperture [⟨out, ph + UInt64.ofNat offset, len⟩] out bytes = imageWrites ph offset bytes := by
  have hzip : bytes.zipIdx offset = bytes.zipIdx.map (Prod.map id (· + offset)) := by
    rw [List.map_snd_add_zipIdx_eq_zipIdx, Nat.add_zero]
  rw [writeAperture, imageWrites, hzip, List.map_map, ← List.filterMap_eq_map]
  apply List.filterMap_congr
  rintro ⟨b, i⟩ hb
  have hi : i < len := by
    have := List.snd_lt_of_mem_zipIdx hb
    omega
  rw [cardAddr_single hi h64, Option.map_some, UInt64.add_assoc, ← UInt64.ofNat_add, Nat.add_comm]
  rfl

theorem copyChunk_spec {bytes : List UInt8} {dma : Dma} {r : Int32 × Sys}
    (hs : s.mappings = [⟨out, ph + UInt64.ofNat offset, len⟩]) (hlen : bytes.length ≤ len) (h64 : len < 2 ^ 64)
    (hr : copyChunk xdev dma out bytes s = r) :
    r.2.mappings = s.mappings ∧ (r.1 = 0 → r.2.log = s.log ++ imageWrites ph offset bytes) := by
  subst hr
  rw [copyChunk]
  have hcancel : xdev.aperPa + out - xdev.aperPa = out := by grind
  have hnomem : -enomem ≠ 0 := by decide
  by_cases hch : xdev.dmaCh = true
  · rw [if_pos hch, vcaLbpSyncDma, if_neg (by rw [hch]; decide), hcancel, hs]
    by_cases hprep : (!dma.prep) = true
    · rw [if_pos hprep]
      exact ⟨hs, fun h ↦ absurd h hnomem⟩
    rw [if_neg hprep]
    by_cases hcookie : dma.cookie < 0
    · rw [if_pos hcookie]
      exact ⟨hs, fun h ↦ absurd h hnomem⟩
    rw [if_neg hcookie]
    refine ⟨hs, fun hstatus ↦ ?_⟩
    dsimp only at hstatus ⊢
    rw [if_pos hstatus, writeAperture_eq hlen h64]
    rfl
  · rw [if_neg hch, hs, writeAperture_eq hlen h64]
    exact ⟨hs, fun _ ↦ rfl⟩

/-- The loop leaves nothing mapped, and it ends well only if the rest of the image was written. -/
theorem sendChunks_spec (himg : img.length < 2 ^ 64) (hs : s.mappings = []) (hchunk : 0 < chunkSize)
    (hoff : offset ≤ img.length) (hfuel : img.length - offset < fuel)
    {r : Int32 × Sys} (hr : sendChunks env xdev img ph fuel offset chunkSize k err s = r) :
    r.2.mappings = [] ∧
      (exitCode r.1 = lbpStateOk → r.2.log = s.log ++ imageWrites ph offset (img.drop offset)) := by
  induction fuel generalizing offset chunkSize k err s with
  | zero => exact absurd hfuel (Nat.not_lt_zero _)
  | succ fuel ih =>
    rw [sendChunks] at hr
    by_cases hlt : offset < img.length
    · rw [if_pos hlt] at hr
      by_cases hcopy : env.copyFromUser k ≠ 0
      · simp only [if_pos hcopy] at hr
        subst hr
        exact ⟨hs, fun h ↦ absurd h exitCode_internalError⟩
      simp only [if_neg hcopy, plxIoremap] at hr
      generalize hn : (if img.length - offset < chunkSize then img.length - offset else chunkSize) = n at hr
      have hnpos : 0 < n := by split_ifs at hn <;> omega
      have hnle : n ≤ img.length - offset := by split_ifs at hn <;> omega
      cases hmap : (if xdev.aLut then env.aLutEntry k else some (ph + UInt64.ofNat offset)) with
      | none =>
        simp only [hmap] at hr
        subst hr
        exact ⟨hs, fun h ↦ absurd h exitCode_internalError⟩
      | some out =>
        simp only [hmap] at hr
        have h64 : n < 2 ^ 64 := by omega
        have htake : ((img.drop offset).take n).length ≤ n := List.length_take_le _ _
        rcases hr' : copyChunk xdev (env.dma k) out ((img.drop offset).take n)
          { s with mappings := ⟨out, ph + UInt64.ofNat offset, n⟩ :: s.mappings } with ⟨err, s₁⟩
        obtain ⟨hmappings, hlog⟩ := copyChunk_spec (by rw [hs]) htake h64 hr'
        have hunmap : (plxIounmap out s₁).mappings = [] := by
          rw [plxIounmap, hmappings, hs]
          simp
        simp only [hr'] at hr
        by_cases herr : err = 0
        · rw [if_neg (not_not.mpr herr)] at hr
          obtain ⟨hfree, hrest⟩ := ih hunmap hnpos (by omega) (by omega) hr
          refine ⟨hfree, fun h ↦ ?_⟩
          calc r.2.log = s₁.log ++ imageWrites ph (offset + n) (img.drop (offset + n)) := hrest h
            _ = s.log ++ imageWrites ph offset ((img.drop offset).take n) ++
                imageWrites ph (offset + n) (img.drop (offset + n)) := by rw [hlog herr]
            _ = s.log ++ imageWrites ph offset (img.drop offset) := by
              rw [List.append_assoc, imageWrites_drop hnle]
        · rw [if_pos herr] at hr
          subst hr
          exact ⟨hunmap, fun h ↦ absurd h exitCode_internalError⟩
    · rw [if_neg hlt] at hr
      subst hr
      rw [List.drop_eq_nil_of_le (Nat.le_of_not_lt hlt)]
      exact ⟨hs, fun _ ↦ (List.append_nil _).symm⟩

theorem tempBuffSize_pos {size : ℕ} (h : tempBuffSize env = some size) : 0 < size := by
  rw [tempBuffSize] at h
  split_ifs at h
  · rw [← Option.some_inj.mp h]
    decide
  · rw [← Option.some_inj.mp h]
    decide

/-- An image is sent only if the card has mapped a ramdisk without an error. -/
theorem send_spec {img : Image} (hs : s.mappings = []) {r : Int32 × Sys}
    (hr : plxLbpSendRamdisk env xdev img s = r) :
    r.2.mappings = [] ∧
      (r.1 = lbpStateOk → ∃ size ready, ready &&& i7AnyError = 0 ∧
        r.2.log = s.log ++ [Event.writeSpad .dataLow size, .writeSpad .dataHigh 0,
          .writeSpad .i7Cmd (i7Cmd cmdMapRamdisk paramBar23), .waited ready] ++
          imageWrites (ramdiskPh env) 0 img.bytes) := by
  rw [plxLbpSendRamdisk, plxLbpGetI7Status] at hr
  dsimp only at hr
  by_cases hready : readyBits (env.ready s.reads) ≠ i7Ready
  · rw [if_pos hready] at hr
    subst hr
    exact ⟨hs, fun h ↦ absurd h exitCode_internalError⟩
  rw [if_neg hready] at hr
  cases hsize : tempBuffSize env with
  | none =>
    simp only [hsize] at hr
    subst hr
    exact ⟨hs, fun h ↦ absurd h exitCode_internalError⟩
  | some size =>
    simp only [hsize] at hr
    by_cases hmap : (xdev.dmaCh && env.dmaMappingError) = true
    · rw [if_pos hmap] at hr
      subst hr
      exact ⟨hs, fun h ↦ absurd h exitCode_internalError⟩
    rw [if_neg hmap] at hr
    generalize (UInt64.ofNat img.bytes.length + (1024 * 1024 - 1)) / (1024 * 1024) = alloc at hr
    generalize hs₁ : ((({ s with reads := s.reads + 1 } : Sys).writeSpad .dataLow alloc.toUInt32).writeSpad
      .dataHigh 0).writeSpad .i7Cmd (i7Cmd cmdMapRamdisk paramBar23) = s₁ at hr
    have hmappings₁ : s₁.mappings = [] := by
      rw [← hs₁]
      exact hs
    have hlog₁ : s₁.log = s.log ++ [Event.writeSpad .dataLow alloc.toUInt32, .writeSpad .dataHigh 0,
        .writeSpad .i7Cmd (i7Cmd cmdMapRamdisk paramBar23)] := by
      rw [← hs₁]
      simp [Sys.writeSpad, Sys.record]
    rcases hw : plxLbpWaitForI7State env (i7Done ||| i7AnyError) xdev.i7AllocTimeoutMs s₁ with ⟨err, s₂⟩
    rw [hw] at hr
    dsimp only at hr
    obtain ⟨hmappings₂, hout⟩ := wait_spec hw
    rw [hmappings₁] at hmappings₂
    rcases hout with ⟨hneg, -⟩ | ⟨ready, hneg, herr, hlog₂⟩
    · rw [if_pos hneg] at hr
      subst hr
      exact ⟨hmappings₂, fun h ↦ absurd h exitCode_allocTimeout⟩
    rw [if_neg hneg] at hr
    by_cases hany : anyError err = true
    · rw [if_pos hany] at hr
      subst hr
      refine ⟨hmappings₂, fun h ↦ ?_⟩
      exact absurd ((exitCode_eq_ok hneg).mp h) (by rw [hany]; decide)
    rw [if_neg hany] at hr
    rcases hc : sendChunks env xdev img.bytes (ramdiskPh env) (img.bytes.length + 1) 0 size 0 err s₂ with ⟨err', s₃⟩
    rw [hc] at hr
    subst hr
    obtain ⟨hfree, hlog₃⟩ := sendChunks_spec img.lt hmappings₂ (tempBuffSize_pos hsize) (Nat.zero_le _)
      (Nat.lt_succ_self _) hc
    refine ⟨hfree, fun h ↦ ⟨alloc.toUInt32, ready, herr.mp (Bool.eq_false_iff.mpr hany), ?_⟩⟩
    rw [hlog₃ h, hlog₂, hlog₁, List.drop_zero, List.append_assoc s.log]
    rfl

end Send

/-! ## The image arrives -/

section Delivery

variable {α β : Type*} [DecidableEq α]

theorem filter_fst_eq_singleton {l : List (α × β)} (hl : (l.map Prod.fst).Nodup) {x : α × β} (hx : x ∈ l) :
    l.filter (fun w ↦ w.1 = x.1) = [x] := by
  induction l with
  | nil => exact absurd hx List.not_mem_nil
  | cons y l ih =>
    rw [List.map_cons, List.nodup_cons] at hl
    rcases List.mem_cons.mp hx with rfl | hx
    · have hrest : l.filter (fun w ↦ w.1 = x.1) = [] := by
        rw [List.filter_eq_nil_iff]
        intro w hw heq
        have hfst : w.1 = x.1 := of_decide_eq_true heq
        exact hl.1 (hfst ▸ List.mem_map_of_mem hw)
      rw [List.filter_cons, decide_eq_true rfl, if_pos rfl, hrest]
    · have hne : y.1 ≠ x.1 := fun hfst ↦ hl.1 (hfst ▸ List.mem_map_of_mem hx)
      rw [List.filter_cons, decide_eq_false hne, if_neg Bool.false_ne_true, ih hl.2 hx]

theorem written_imageWrites (ph : UInt64) (bytes : List UInt8) :
    written (imageWrites ph 0 bytes) = bytes.zipIdx.map fun b ↦ (ph + UInt64.ofNat b.2, b.1) := by
  rw [written, imageWrites, List.filterMap_map, ← List.filterMap_eq_map]
  rfl

/-- The places in the ramdisk are distinct, since the size of the image is a `size_t`. -/
theorem places_nodup {n : ℕ} (ph : UInt64) (hn : n < 2 ^ 64) :
    ((List.range n).map fun i ↦ ph + UInt64.ofNat i).Nodup := by
  apply List.Nodup.map_on _ List.nodup_range
  intro i hi j hj heq
  rw [List.mem_range] at hi hj
  have hnat : (UInt64.ofNat i).toNat = (UInt64.ofNat j).toNat :=
    congrArg UInt64.toNat ((UInt64.add_right_inj ph).mp heq)
  rwa [UInt64.toNat_ofNat_of_lt' (Nat.lt_trans hi hn), UInt64.toNat_ofNat_of_lt' (Nat.lt_trans hj hn)] at hnat

theorem delivered_of_written {ph : UInt64} {img : Image} {es : List Event}
    (h : written es = written (imageWrites ph 0 img.bytes)) : Delivered ph img es := by
  intro i hi
  rw [h, written_imageWrites]
  have hmem : (ph + UInt64.ofNat i, img.bytes[i]) ∈ img.bytes.zipIdx.map fun b ↦ (ph + UInt64.ofNat b.2, b.1) :=
    List.mem_map.mpr ⟨(img.bytes[i], i), List.mk_mem_zipIdx_iff_getElem?.mpr (List.getElem?_eq_getElem hi), rfl⟩
  apply filter_fst_eq_singleton _ hmem
  have hplaces : (img.bytes.zipIdx.map fun b ↦ (ph + UInt64.ofNat b.2, b.1)).map Prod.fst =
      (List.range img.bytes.length).map fun i ↦ ph + UInt64.ofNat i := by
    rw [List.range_eq_range', ← List.zipIdx_map_snd 0 img.bytes, List.map_map, List.map_map]
    rfl
  rw [hplaces]
  exact places_nodup ph img.lt

end Delivery

/-! ## The commands -/

section Commands

variable {env : Env} {xdev : PlxDevice} {s : Sys} {img : Image} {word : UInt32} {es after : List Event}

/-- The log of a command up to the word that makes the card use the image. -/
structure Prepared (env : Env) (img : Image) (log : List Event) : Prop where
  noError : NoError log
  written_eq : written log = written (imageWrites (ramdiskPh env) 0 img.bytes)
  commands : ∀ word, .writeSpad .i7Cmd word ∈ log → word = i7Cmd cmdMapRamdisk paramBar23

theorem send_prepares {r : Int32 × Sys} (hr : plxLbpSendRamdisk env xdev img .init = r) :
    r.2.mappings = [] ∧ (r.1 = lbpStateOk → Prepared env img r.2.log) := by
  obtain ⟨hfree, hlog⟩ := send_spec rfl hr
  refine ⟨hfree, fun h ↦ ?_⟩
  obtain ⟨size, ready, hready, hlog⟩ := hlog h
  have himage {e : Event} (he : e ∈ imageWrites (ramdiskPh env) 0 img.bytes) : ∃ a b, e = .wrote a b := by
    obtain ⟨b, -, rfl⟩ := List.mem_map.mp he
    exact ⟨_, _, rfl⟩
  rw [hlog]
  refine ⟨fun w hw ↦ ?_, ?_, fun word hw ↦ ?_⟩
  · rcases List.mem_append.mp hw with hw | hw
    · simp [Sys.init] at hw
      rw [hw]
      exact hready
    · obtain ⟨a, b, heq⟩ := himage hw
      cases heq
  · rw [written, List.filterMap_append]
    rfl
  · rcases List.mem_append.mp hw with hw | hw
    · simp [Sys.init] at hw
      exact hw
    · obtain ⟨a, b, heq⟩ := himage hw
      cases heq

theorem NoError.append (h : NoError es) (h' : NoError after) : NoError (es ++ after) :=
  fun w hw ↦ (List.mem_append.mp hw).elim (h w) (h' w)

theorem noError_singleton {ready : UInt32} (h : ready &&& i7AnyError = 0) : NoError [.waited ready] := by
  intro w hw
  rw [List.mem_singleton, Event.waited.injEq] at hw
  rw [hw]
  exact h

/-- The image is there when the word is placed, and the rest of the command writes nothing. -/
theorem Prepared.sent (h : Prepared env img es) (hword : word ≠ i7Cmd cmdMapRamdisk paramBar23)
    (hafter : written after = []) : Sent env img word (es ++ Event.writeSpad .i7Cmd word :: after) :=
  ⟨es, after, rfl, fun hmem ↦ hword (h.commands word hmem), delivered_of_written h.written_eq, hafter⟩

theorem NoError.request (h : NoError es) {ready : UInt32} (hready : ready &&& i7AnyError = 0) :
    NoError (es ++ Event.writeSpad .i7Cmd word :: [Event.waited ready]) := by
  apply h.append
  intro w hw
  rcases List.mem_cons.mp hw with hw | hw
  · cases hw
  · exact noError_singleton hready w hw

theorem request_spec {mask : UInt32} {timeout : ℕ} {r : Int32 × Sys}
    (hr : request env word mask timeout s = r) :
    r.2.mappings = s.mappings ∧
      (r.1 < 0 ∨ ∃ ready, ¬ r.1 < 0 ∧ (anyError r.1 = false ↔ ready &&& i7AnyError = 0) ∧
        r.2.log = s.log ++ Event.writeSpad .i7Cmd word :: [Event.waited ready]) := by
  obtain ⟨hmappings, ⟨hneg, -⟩ | ⟨ready, hneg, hany, hlog⟩⟩ := wait_spec hr
  · exact ⟨hmappings, .inl hneg⟩
  · refine ⟨hmappings, .inr ⟨ready, hneg, hany, ?_⟩⟩
    rw [hlog, Sys.writeSpad, Sys.record, List.append_assoc]
    rfl

/-- A command that fails only has to leave nothing mapped. -/
theorem Truthful.of_ne {cmd : Command} {out : Int32 × Sys} (hne : out.1 ≠ lbpStateOk) (h : out.2.mappings = []) :
    Truthful env cmd out :=
  ⟨fun hok ↦ absurd hok hne, fun hok ↦ absurd hok hne, h⟩

theorem bootRamdisk_truthful (env : Env) (xdev : PlxDevice) (img : Image) :
    Truthful env (.bootRamdisk img) (run env xdev (.bootRamdisk img)) := by
  rw [run, plxLbpBootRamdisk]
  by_cases hrid : env.programRidLut ≠ 0
  · rw [if_pos hrid]
    exact .of_ne internalError_ne rfl
  rw [if_neg hrid]
  rcases hsend : plxLbpSendRamdisk env (plxRequestDmaChan env xdev) img .init with ⟨err, s⟩
  obtain ⟨hfree, hprep⟩ := send_prepares hsend
  dsimp only at hfree hprep ⊢
  by_cases herr : err ≠ lbpStateOk
  · rw [if_pos herr]
    exact .of_ne herr hfree
  rw [if_neg herr]
  have hprep := hprep (not_not.mp herr)
  rcases hw : request env (i7Cmd cmdBootRamdisk 0) (i7Booting ||| i7OsReady ||| i7AnyError)
    (plxRequestDmaChan env xdev).i7CmdTimeoutMs s with ⟨err', s'⟩
  obtain ⟨hmappings, hneg | ⟨ready, hneg, hany, hlog⟩⟩ := request_spec hw
  · dsimp only at hneg ⊢
    rw [if_pos hneg]
    exact .of_ne exitCode_cmdTimeout (hmappings.trans hfree)
  · dsimp only at hneg hany hlog ⊢
    rw [if_neg hneg]
    refine ⟨fun h ↦ ?_, fun h img' word' himg ↦ ?_, hmappings.trans hfree⟩
    · rw [hlog]
      exact hprep.noError.request (hany.mp ((exitCode_eq_ok hneg).mp h))
    · obtain ⟨rfl, rfl⟩ := Prod.mk.inj (Option.some_inj.mp himg)
      rw [hlog]
      exact hprep.sent (by decide) rfl

theorem bootBlkdisk_truthful (env : Env) (xdev : PlxDevice) :
    Truthful env .bootBlkdisk (run env xdev .bootBlkdisk) := by
  rw [run, plxLbpBootBlkdisk]
  by_cases hrid : env.programRidLut ≠ 0
  · rw [if_pos hrid]
    exact .of_ne internalError_ne rfl
  rw [if_neg hrid, plxLbpGetI7Status]
  dsimp only
  by_cases hready : readyBits (env.ready Sys.init.reads) ≠ i7Ready
  · rw [if_pos hready]
    exact .of_ne neg_internalError_ne rfl
  rw [if_neg hready]
  generalize hs₁ : (⟨Sys.init.reads + 1, Sys.init.mappings, Sys.init.blockioDp, Sys.init.log⟩ : Sys) = s₁
  have hmappings₁ : s₁.mappings = [] := by
    rw [← hs₁]
    rfl
  have hlog₁ : s₁.log = [] := by
    rw [← hs₁]
    rfl
  rcases hw : request env (i7Cmd cmdBootBlockIo 0) (i7BootingBlockIo ||| i7OsReady ||| i7AnyError)
    (plxRequestDmaChan env xdev).i7CmdTimeoutMs s₁ with ⟨err, s⟩
  have hfree := (request_spec hw).1.trans hmappings₁
  obtain ⟨-, hneg | ⟨ready, hneg, hany, hlog⟩⟩ := request_spec hw
  · dsimp only at hneg ⊢
    rw [if_pos hneg]
    exact .of_ne exitCode_cmdTimeout hfree
  dsimp only at hneg hany hlog ⊢
  rw [if_neg hneg]
  cases herr : anyError err with
  | true =>
    rw [if_pos rfl]
    refine .of_ne (fun h ↦ ?_) hfree
    exact Bool.false_ne_true (((exitCode_eq_ok hneg).mp h).symm.trans herr)
  | false =>
    rw [if_neg Bool.false_ne_true]
    refine ⟨fun _ ↦ ?_, nofun, hfree⟩
    have hnil : NoError [] := nofun
    rw [plxLbpBlkioSetDevpage, hlog, hlog₁]
    exact hnil.request (hany.mp herr)

/-- The flash commands: there are two waits, and the second one is for the end. -/
theorem flash_truthful {cmd : Command} (env : Env) (xdev : PlxDevice) (himg : cmd.image = some (img, word))
    (hword : word ≠ i7Cmd cmdMapRamdisk paramBar23) : Truthful env cmd (plxLbpFlash env xdev word img .init) := by
  rw [plxLbpFlash]
  rcases hsend : plxLbpSendRamdisk env xdev img .init with ⟨err, s⟩
  obtain ⟨hfree, hprep⟩ := send_prepares hsend
  change Truthful env cmd (if err ≠ lbpStateOk then (err, s) else _)
  by_cases herr : err ≠ lbpStateOk
  · rw [if_pos herr]
    exact .of_ne herr hfree
  rw [if_neg herr]
  have hprep := hprep (not_not.mp herr)
  rcases hw : request env word (i7Flashing ||| i7AnyError) xdev.i7CmdTimeoutMs s with ⟨err₁, s₁⟩
  change Truthful env cmd (if err₁ < 0 then (exitCode (-lbpCmdTimeout), s₁) else _)
  obtain ⟨hmappings₁, hneg | ⟨ready₁, hneg, hany, hlog₁⟩⟩ := request_spec hw
  · rw [if_pos hneg]
    exact .of_ne exitCode_cmdTimeout (hmappings₁.trans hfree)
  rw [if_neg hneg]
  cases herr₁ : anyError err₁ with
  | true =>
    rw [if_pos rfl]
    refine .of_ne (fun h ↦ ?_) (hmappings₁.trans hfree)
    exact Bool.false_ne_true (((exitCode_eq_ok hneg).mp h).symm.trans herr₁)
  | false =>
    rw [if_neg Bool.false_ne_true]
    rcases hw₂ : plxLbpWaitForI7State env (i7Done ||| i7AnyError) flashTimeoutMs s₁ with ⟨err₂, s₂⟩
    change Truthful env cmd (if err₂ < 0 then (exitCode (-lbpCmdTimeout), s₂) else (exitCode err₂, s₂))
    obtain ⟨hmappings₂, ⟨hneg₂, -⟩ | ⟨ready₂, hneg₂, hany₂, hlog₂⟩⟩ := wait_spec hw₂
    · rw [if_pos hneg₂]
      exact .of_ne exitCode_cmdTimeout (hmappings₂.trans (hmappings₁.trans hfree))
    rw [if_neg hneg₂]
    refine ⟨fun h ↦ ?_, fun h img' word' himg' ↦ ?_, hmappings₂.trans (hmappings₁.trans hfree)⟩
    · rw [hlog₂, hlog₁]
      apply (hprep.noError.request (hany.mp herr₁)).append
      exact noError_singleton (hany₂.mp ((exitCode_eq_ok hneg₂).mp h))
    · obtain ⟨rfl, rfl⟩ := Prod.mk.inj (Option.some_inj.mp (himg.symm.trans himg'))
      rw [hlog₂, hlog₁, List.append_assoc]
      exact hprep.sent hword rfl

/-- A boot from USB succeeds as soon as its wait has ended. -/
theorem bootFromUsb_truthful_iff (env : Env) (xdev : PlxDevice) :
    Truthful env .bootFromUsb (run env xdev .bootFromUsb) ↔ Unharmed env xdev .bootFromUsb := by
  rw [run, plxLbpBootFromUsb]
  by_cases hrid : env.programRidLut ≠ 0
  · rw [if_pos hrid]
    exact iff_of_true (.of_ne internalError_ne rfl) fun h ↦ absurd h hrid
  rw [if_neg hrid]
  have hcall := wait_call env (i7Booting ||| i7AnyError) (plxRequestDmaChan env xdev).i7CmdTimeoutMs
    (Sys.init.writeSpad .i7Cmd (i7Cmd cmdBootLoader 0))
  have hreads (m : ℕ) : (Sys.init.writeSpad .i7Cmd (i7Cmd cmdBootLoader 0)).reads + m = m := Nat.zero_add m
  have hetime : -etime < 0 := by decide
  have htimeout : lbpCmdTimeout ≠ lbpStateOk := by decide
  change WaitCall env _ _ _ (request env (i7Cmd cmdBootLoader 0) (i7Booting ||| i7AnyError)
    (plxRequestDmaChan env xdev).i7CmdTimeoutMs .init) at hcall
  generalize request env (i7Cmd cmdBootLoader 0) (i7Booting ||| i7AnyError)
    (plxRequestDmaChan env xdev).i7CmdTimeoutMs .init = r at hcall ⊢
  cases hcall with
  | timeout n h =>
    simp only [hreads] at h
    dsimp only
    rw [if_pos hetime]
    exact iff_of_true (.of_ne htimeout rfl) fun _ n hn ↦ absurd hn (h n)
  | ended n k h =>
    simp only [hreads] at h ⊢
    rw [if_neg (toInt32_nonneg _)]
    have hmem : .waited (readyBits (env.ready k)) ∈
        Sys.init.log ++ [Event.writeSpad .i7Cmd (i7Cmd cmdBootLoader 0)] ++ [Event.waited (readyBits (env.ready k))] :=
      List.mem_append_right _ (List.mem_singleton_self _)
    constructor
    · intro htruth _ j hj
      rw [hj.unique h]
      exact htruth.noError rfl _ hmem
    · intro hok
      have hnil : NoError [] := nofun
      refine ⟨fun _ ↦ ?_, nofun, rfl⟩
      exact hnil.request (hok (not_not.mp hrid) k h)

/-- A command that returns `LBP_STATE_OK` has met no error of the card and has sent its image, and every
command releases what it has mapped, unless a boot from USB is answered with an error. -/
theorem commands_truthful_iff (env : Env) (xdev : PlxDevice) (cmd : Command) :
    Truthful env cmd (run env xdev cmd) ↔ Unharmed env xdev cmd := by
  cases cmd with
  | bootRamdisk img => exact iff_of_true (bootRamdisk_truthful env xdev img) trivial
  | bootBlkdisk => exact iff_of_true (bootBlkdisk_truthful env xdev) trivial
  | flashBios img => exact iff_of_true (flash_truthful env xdev rfl (by decide)) trivial
  | clearSmbEventLog img => exact iff_of_true (flash_truthful env xdev rfl (by decide)) trivial
  | updateMacAddr img => exact iff_of_true (flash_truthful env xdev rfl (by decide)) trivial
  | setSerialNumber img => exact iff_of_true (flash_truthful env xdev rfl (by decide)) trivial
  | bootFromUsb => exact bootFromUsb_truthful_iff env xdev

end Commands

/-- A card that reports an error to whatever it is asked. -/
def failingEnv : Env where
  ready _ := i7GeneralError
  dataLow := 0
  dataHigh := 0
  requestDmaChan := true
  programRidLut := 0
  getFreePages _ := true
  dmaMappingError := false
  copyFromUser _ := 0
  aLutEntry _ := none
  dma _ := ⟨true, 1, 0, 0⟩

def plxDevice : PlxDevice := ⟨true, true, 0, 1000, 100⟩

/-- The card has not booted from USB, and the command succeeds. -/
theorem failed_usb_boot_succeeds :
    (run failingEnv plxDevice .bootFromUsb).1 = lbpStateOk ∧
      ¬ Truthful failingEnv .bootFromUsb (run failingEnv plxDevice .bootFromUsb) := by
  refine ⟨by decide, fun h ↦ ?_⟩
  have hmem : .waited i7GeneralError ∈ (run failingEnv plxDevice .bootFromUsb).2.log := by decide
  exact absurd (h.noError (by decide) _ hmem) (by decide)

end Vcass.Lbp
