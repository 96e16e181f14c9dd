import Vcass.BlockIo.Bcknd.Pipeline

/-!
# Block I/O backend: the programs of the threads as automata

The loops of `vcablk_bcknd_disk_request` and `vcablk_bcknd_transfer`, the callback and the transfer
thread, rewritten as programs over the chunks still to be done. Each state of an automaton of
`Vcass.BlockIo.Bcknd.Pipeline` has one program, what its thread still has to do, and the theorems
here say that the code of the thread *is* that program: `discard_request` for the request thread and
`complete_bind` for the transfer thread. Both are equalities of programs, so they hold in every
state and for every answer of the environment.
-/

namespace Vcass.BlockIo.Bcknd

open Conc Prog

/-! ## The request thread's program, chunk by chunk -/

def abortCode (cookie : ℕ) : Option Window → ℤ → BProg Unit
  | some w, err => .act (.iounmap w) fun _ ↦ .act (.sendResponse none cookie err) .ret
  | none, err => .act (.sendResponse none cookie err) .ret

def submitCode (cookie : ℕ) (w : Window) (b : ℕ) (c : Chunk) (k : BProg Unit) : BProg Unit :=
  .act (.dmaAsync b w c.off (c.nsec <<< sectorShift) c.isWrite) fun (ck : ℤ) ↦
    if ck < 0 then abortCode cookie (some w) (-enomem) else k

def loadCode (cookie : ℕ) (w : Window) (b : ℕ) (c : Chunk) (k : BProg Unit) : BProg Unit :=
  .act (.mediaTransfer c.sector c.nsec b false) fun (r : ℤ) ↦
    if r = 0 then submitCode cookie w b c k else abortCode cookie (some w) r

def fillCode (cookie : ℕ) (w : Window) (b : ℕ) (c : Chunk) (k : BProg Unit) : BProg Unit :=
  .act (.setParam b (c.param w)) fun _ ↦
    if c.isWrite then submitCode cookie w b c k else loadCode cookie w b c k

def chunksCode (cookie : ℕ) (w : Window) : List Chunk → BProg Unit → BProg Unit
  | [], k => k
  | c :: cs, k =>
    .act .getTransferParam fun (b : ℕ) ↦ fillCode cookie w b c (chunksCode cookie w cs k)

def entriesCode (cookie : ℕ) : List Entry → BProg Unit
  | [] => .ret ()
  | e :: es => .act (.ioremap e.phys e.len) fun (o : Option Window) ↦
      match o with
      | none => abortCode cookie none (-eio)
      | some w => chunksCode cookie w e.chunks (entriesCode cookie es)

/-- What is left of the request thread's program. -/
def ReqSt.code : ReqSt → BProg Unit
  | idle => .ret ()
  | lead cookie es => .act (.mediaSync none) fun (r : ℤ) ↦
      if r = 0 then entriesCode cookie es else abortCode cookie none r
  | next cookie e es => entriesCode cookie (e :: es)
  | inEntry cookie w c cs es => chunksCode cookie w (c :: cs) (entriesCode cookie es)
  | popped cookie w b c cs es => fillCode cookie w b c (chunksCode cookie w cs (entriesCode cookie es))
  | toLoad cookie w b c cs es => loadCode cookie w b c (chunksCode cookie w cs (entriesCode cookie es))
  | toSubmit cookie w b c cs es =>
      submitCode cookie w b c (chunksCode cookie w cs (entriesCode cookie es))
  | abort cookie w err => abortCode cookie w err
  | done => .ret ()

@[simp] theorem ReqSt.code_settle (cookie : ℕ) (es : List Entry) :
    (settle cookie es).code = entriesCode cookie es := by
  cases es <;> rfl

@[simp] theorem ReqSt.code_proceed (cookie : ℕ) (w : Window) (cs : List Chunk) (es : List Entry) :
    (proceed cookie w cs es).code = chunksCode cookie w cs (entriesCode cookie es) := by
  cases cs
  · exact code_settle cookie es
  · rfl


theorem transferDevice_bind {cookie b : ℕ} {w : Window} {c : Chunk} {k : BProg Unit}
    {f : ℤ → BProg Unit} (hf : f (-enomem) = abortCode cookie (some w) (-enomem)) (hk : f 0 = k) :
    (vcablkBckndTransferDevice b w c.off (c.nsec <<< sectorShift) c.isWrite >>= f) =
      submitCode cookie w b c k := by
  simp only [vcablkBckndTransferDevice, call, perform_bind, act_bind, pure_eq, ret_bind, submitCode]
  congr 1
  funext ck
  split
  · exact hf
  · exact hk

theorem transferLoop_bind {cookie : ℕ} {w : Window} {f : ℤ → BProg Unit}
    (hf : ∀ err, err ≠ 0 → f err = abortCode cookie (some w) err) (write : Bool) (ck : ℤ)
    (flush : Bool) (fuel left sector off : ℕ) :
    (vcablkBckndTransferLoop w write ck flush fuel left sector off >>= f) =
      chunksCode cookie w (chunks write ck flush fuel left sector off) (f 0) := by
  induction fuel generalizing left sector off with
  | zero => rfl
  | succ fuel ih =>
    rw [vcablkBckndTransferLoop, chunks]
    split
    · rfl
    simp only [call, perform_bind, act_bind, chunksCode, fillCode]
    congr 1
    funext b
    congr 1
    · simp [Chunk.param]
    funext _
    cases write with
    | true =>
      simp only [if_true, pure_eq, ret_bind, ne_eq, not_true, if_false, bind_assoc]
      refine transferDevice_bind (c := ⟨_, _, _, true, _, _, _⟩) ?_ ?_
      · rw [if_pos (by decide)]
        exact hf _ (by decide)
      · exact ih ..
    | false =>
      simp only [Bool.false_eq_true, if_false, act_bind, loadCode]
      congr 1
      funext r
      by_cases hr : r = 0
      · simp only [hr, ne_eq, not_true, if_false, if_true, bind_assoc]
        refine transferDevice_bind (c := ⟨_, _, _, false, _, _, _⟩) ?_ ?_
        · rw [if_pos (by decide)]
          exact hf _ (by decide)
        · exact ih ..
      · rw [if_pos hr, if_neg hr]
        exact hf r hr

theorem transfer_bind {cookie : ℕ} {f : ℤ → BProg Unit}
    (hf : ∀ err, err ≠ 0 → f err = abortCode cookie none err) (write : Bool) (ck : ℤ)
    (flush : Bool) (r : VcablkRequest) :
    (vcablkBckndTransfer r.sector r.sectorsNum r.physBuff write ck flush >>= f) =
      .act (.ioremap r.physBuff (r.sectorsNum <<< sectorShift)) fun (o : Option Window) ↦
        match o with
        | none => abortCode cookie none (-eio)
        | some w => chunksCode cookie w (entryOf write ck flush r).chunks (f 0) := by
  simp only [vcablkBckndTransfer, call, perform_bind, act_bind]
  congr 1
  funext o
  cases o with
  | none => exact hf _ (by decide)
  | some w =>
    simp only [bind_assoc]
    refine transferLoop_bind (fun err herr ↦ ?_) ..
    rw [if_pos herr, act_bind, pure_eq, ret_bind, hf err herr]
    rfl

theorem requestLoop_bind {cookie : ℕ} {f : ℤ → BProg Unit}
    (hf : ∀ err, err ≠ 0 → f err = abortCode cookie none err) (h0 : f 0 = .ret ()) (write : Bool)
    (flush : Bool) (rs : List VcablkRequest) :
    (vcablkBckndDiskRequestLoop write cookie flush rs >>= f) =
      entriesCode cookie (entries write cookie flush rs) := by
  induction rs with
  | nil => exact h0
  | cons r rs ih =>
    rw [vcablkBckndDiskRequestLoop, bind_assoc, entries, entriesCode, transfer_bind]
    · simp only [ne_eq, not_true, if_false, ih]
      rfl
    · intro err herr
      rw [if_pos herr]
      exact hf err herr

theorem getInfo_length_ne_one {g : List VcablkRequest}
    (h : (vcablkBckndDiskRequestGetInfo g).2.syncBefore = true) : g.length ≠ 1 := by
  intro hlen
  obtain ⟨r, rfl⟩ := List.length_eq_one_iff.mp hlen
  rw [vcablkBckndDiskRequestGetInfo] at h
  split at h
  · exact absurd h (by simp)
  · revert h
    dsimp only
    split <;> simp

theorem requestEntries_discard (g : List VcablkRequest) (info : RequestInfo) (id : ℕ) :
    (vcablkBckndDiskRequestEntries g info id).discard =
      entriesCode info.cookie (dataEntries g info id) := by
  rw [vcablkBckndDiskRequestEntries, Prog.discard, bind_assoc]
  refine requestLoop_bind (fun err herr ↦ ?_) rfl ..
  rw [if_pos herr]
  rfl

/-- **The request thread's program is the automaton's.** -/
theorem discard_request (g : List VcablkRequest) :
    (vcablkBckndDiskRequest g).discard = (ReqSt.start g).code := by
  have hlen := getInfo_length_ne_one (g := g)
  rw [vcablkBckndDiskRequest, ReqSt.start]
  generalize vcablkBckndDiskRequestGetInfo g = result at hlen ⊢
  obtain ⟨err, info⟩ := result
  dsimp only at hlen ⊢
  by_cases herr : err = 0
  · rw [if_neg (not_not.mpr herr), if_neg (not_not.mpr herr)]
    split
    case isFalse => rw [requestEntries_discard, ReqSt.code_settle]
    case isTrue hsync =>
      simp only [Prog.discard, call, perform_bind, act_bind, ReqSt.code, hlen hsync, or_false]
      congr 1
      funext r
      by_cases hr : r = 0
      · rw [if_neg (not_not.mpr hr), if_pos hr]
        exact requestEntries_discard g info 1
      · rw [if_pos hr, if_neg hr]
        rfl
  · rw [if_pos herr, if_pos herr]
    rfl


/-! ## The transfer thread's program, buffer by buffer -/

section Transfer

variable (lastUsed : ℕ)

def releaseCode : BProg ℕ :=
  .act (.ringSetLastUsed (vcaRbCounterAdd lastUsed 1 vcablkTransferRingSize)) fun _ ↦
    .ret (vcaRbCounterAdd lastUsed 1 vcablkTransferRingSize)

def pushCode (b : ℕ) : BProg ℕ := .act (.poolPush b) fun _ ↦ releaseCode lastUsed

def respondCode (b : ℕ) (p : CallbackParam) (err : ℤ) : BProg ℕ :=
  .act (.sendResponse (some b) p.responseCookie.toNat err) fun _ ↦ pushCode lastUsed b

def storedCode (b : ℕ) (p : CallbackParam) (err : ℤ) : BProg ℕ :=
  if 0 ≤ p.responseCookie then
    if err = 0 ∧ p.doFlush then
      .act (.mediaSync (some b)) fun (r : ℤ) ↦ respondCode lastUsed b p r
    else respondCode lastUsed b p err
  else pushCode lastUsed b

def begunCode (b : ℕ) (p : CallbackParam) : BProg ℕ :=
  if p.isWrite then .act (.mediaTransfer p.sector p.nsec b true) fun (r : ℤ) ↦
    storedCode lastUsed b p r
  else storedCode lastUsed b p 0

def takenCode (b : ℕ) (p : CallbackParam) : BProg ℕ :=
  .act (.clearTx b) fun _ ↦ begunCode lastUsed b p

theorem complete_bind (b : ℕ) (p : CallbackParam) :
    (vcaBckndCompleteTransfer b p >>= fun _ ↦ releaseCode lastUsed) = takenCode lastUsed b p := by
  have hstored (err : ℤ) : ((if 0 ≤ p.responseCookie then do
      let err ← if err = 0 ∧ p.doFlush then call (.mediaSync (some b)) else pure err
      call (.sendResponse (some b) p.responseCookie.toNat err)
      call (.poolPush b)
    else call (.poolPush b) : BProg Unit) >>= fun _ ↦ releaseCode lastUsed) =
      storedCode lastUsed b p err := by
    rw [storedCode]
    split
    · split <;> rfl
    · rfl
  rw [vcaBckndCompleteTransfer, takenCode, begunCode]
  simp only [call, perform_bind, act_bind]
  congr 1
  funext _
  split
  · exact congrArg (Prog.act _) (funext fun r ↦ hstored r)
  · exact hstored 0

end Transfer

end Vcass.BlockIo.Bcknd
