import Vcass.Lib.RingBuffer
import Vcass.BlockIo.Disk.Contexts

/-!
# Block I/O: the completion ring

The way of an answer from the backend to the frontend. The backend's request thread and its transfer
thread call `vcablk_bcknd_disk_send_response`, one at a time under `send_resp_lock`; the frontend's
`vcablk_disk_request_completion_handler` takes the answers out of the ring and calls
`vcablk_disk_request_done` for each. Every access to the ring is a step of its own.

The frontend, its request thread and the backend's fetching of requests are those of `Disk`; where
`Disk` lets an answer arrive out of nowhere, it arrives here through the ring. Of the backend only one
thing is assumed: it answers a part it has taken, and answers it once.

The ring has as many slots as there are usable bio contexts, and an unread answer belongs to a part
whose context is in use. So the ring never overflows, although nothing else keeps the backend from
sending (`Inv.length_le`).
-/

namespace Vcass.BlockIo.CompletionRing

open Conc RingCounter RingBuffer
open Function (update)
open Disk (Part Shared)

/-! ## The system -/

/-- Entries of the completion ring (`VCABLK_QUEUE_ACK_NUMS`). -/
def vcablkQueueAckNums : ℕ := 32

/-- `struct vcablk_completion`; `ret` is the byte in the ring. -/
structure VcablkCompletion where
  cookie : ℕ
  ret : ℕ
  deriving DecidableEq, Repr

/-- What is left of `vcablk_bcknd_disk_send_response`. -/
inductive SendPhase
  /-- At the head of the loop that waits for room, with `sleep_counter`. -/
  | check (sleepCounter : ℕ)
  | writeRet
  | writeCookie
  | publish
  deriving DecidableEq, Repr

/-- A call of `vcablk_bcknd_disk_send_response` that holds the lock. -/
structure Sender where
  cookie : ℕ
  ret : ℤ
  lastAdd : ℕ
  phase : SendPhase
  deriving DecidableEq, Repr

/-- Where the completion handler stands, with its local variables. -/
inductive Work
  | idle
  | loop (lastUsed : ℕ)
  | readCookie (lastUsed : ℕ)
  | readRet (lastUsed requestId : ℕ)
  | clearCookie (lastUsed requestId ret : ℕ)
  | clearRet (lastUsed requestId ret : ℕ)
  | setLastUsed (lastUsed requestId ret : ℕ)
  | done (lastUsed requestId ret : ℕ)
  /-- Inside `vcablk_disk_request_done`, which is the handler of `Disk`. -/
  | running (lastUsed : ℕ)
  deriving DecidableEq, Repr

/-- `answered` are the parts for which a response was started, `sent` the responses written to the
ring and `handed` the arguments of the calls of `vcablk_disk_request_done`; these are history.
`timeouts` counts the responses given up because the ring was full. -/
structure Sys where
  disk : Disk.Sys
  ring : VcablkRing VcablkCompletion
  sender : Option Sender
  work : Work
  answered : List ℕ
  sent : List VcablkCompletion
  handed : List VcablkCompletion
  timeouts : ℕ

inductive Label
  /-- A step of the frontend or of the backend's fetching, except for the arrival of an answer. -/
  | disk (l : Disk.Label)
  /-- The backend starts to answer part `k`. -/
  | send (k : ℕ) (ret : ℤ)
  | sender
  | work

/-- What the completion ring keeps of a return code. -/
def ackRet (ret : ℤ) : ℕ := u8 (s8 ret)

def VcablkCompletion.setRet (ack : VcablkCompletion) (ret : ℕ) : VcablkCompletion :=
  { ack with ret := ret }

def VcablkCompletion.setCookie (ack : VcablkCompletion) (cookie : ℕ) : VcablkCompletion :=
  { ack with cookie := cookie }

/-- The ring with one slot changed (`VCABLK_RB_GET_COMPLETION`). -/
def setAck (ring : VcablkRing VcablkCompletion) (cnt : ℕ)
    (f : VcablkCompletion → VcablkCompletion) : VcablkRing VcablkCompletion :=
  { ring with
    elems := update ring.elems (vcaRbCounterToIdx cnt vcablkQueueAckNums)
      (f (ring.elems (vcaRbCounterToIdx cnt vcablkQueueAckNums))) }

def getAck (ring : VcablkRing VcablkCompletion) (cnt : ℕ) : VcablkCompletion :=
  ring.elems (vcaRbCounterToIdx cnt vcablkQueueAckNums)

/-- One step of `vcablk_bcknd_disk_send_response`. -/
def senderStep (s : Sys) (x : Sender) : Sys :=
  match x.phase with
  | .check sleepCounter =>
    if vcaRbBuffFull x.lastAdd s.ring.lastUsed vcablkQueueAckNums then
      if sleepCounter - 1 = 0 then { s with sender := none, timeouts := s.timeouts + 1 }
      else { s with sender := some { x with phase := .check (sleepCounter - 1) } }
    else { s with sender := some { x with phase := .writeRet } }
  | .writeRet => { s with
      ring := setAck s.ring x.lastAdd (·.setRet (ackRet x.ret))
      sender := some { x with phase := .writeCookie } }
  | .writeCookie => { s with
      ring := setAck s.ring x.lastAdd (·.setCookie x.cookie)
      sender := some { x with phase := .publish } }
  | .publish => { s with
      ring := { s.ring with lastAdd := vcaRbCounterAdd x.lastAdd 1 vcablkQueueAckNums }
      sender := none
      sent := s.sent ++ [⟨x.cookie, ackRet x.ret⟩] }

/-- The part that is not answered and whose context the cookie names, if there is one. -/
def findPart (s : Shared) (cookie : ℕ) : Option ℕ :=
  s.live.find? fun k ↦ s.parts[k]?.map Part.cookie = some cookie

/-- The call of `vcablk_disk_request_done`. An answer that belongs to no part would be no arrival for
the history of `Disk`, but the call would be made all the same. -/
def requestDone (mq : Bool) (d : Disk.Sys) (id ret : ℕ) : Option Disk.Sys :=
  match findPart d.shared id with
  | some k => Disk.step mq d (.answer k ret)
  | none => some { d with handler := some (Disk.vcablkDiskRequestDone id ret) }

/-- One step of `vcablk_disk_request_completion_handler`. -/
def workStep (mq : Bool) (s : Sys) : Option Sys :=
  match s.work with
  | .idle => some { s with work := .loop s.ring.lastUsed }
  | .loop lastUsed =>
    if lastUsed = s.ring.lastAdd then some { s with work := .idle }
    else some { s with work := .readCookie lastUsed }
  | .readCookie lastUsed => some { s with
      work := .readRet lastUsed (getAck s.ring lastUsed).cookie }
  | .readRet lastUsed id => some { s with
      work := .clearCookie lastUsed id (getAck s.ring lastUsed).ret }
  | .clearCookie lastUsed id ret => some { s with
      ring := setAck s.ring lastUsed (·.setCookie 0)
      work := .clearRet lastUsed id ret }
  | .clearRet lastUsed id ret => some { s with
      ring := setAck s.ring lastUsed (·.setRet 0)
      work := .setLastUsed (vcaRbCounterAdd lastUsed 1 vcablkQueueAckNums) id ret }
  | .setLastUsed lastUsed id ret => some { s with
      ring := { s.ring with lastUsed := lastUsed }
      work := .done lastUsed id ret }
  | .done lastUsed id ret => (requestDone mq s.disk id ret).map fun d ↦ { s with
      disk := d
      work := .running lastUsed
      handed := s.handed ++ [⟨id, ret⟩] }
  | .running lastUsed =>
    if s.disk.handler.isSome then none else some { s with work := .loop lastUsed }

def step (mq : Bool) (s : Sys) : Label → Option Sys
  | .disk (.answer _ _) => none
  | .disk l => (Disk.step mq s.disk l).map fun d ↦ { s with disk := d }
  | .send k ret =>
    match s.sender, s.disk.shared.parts[k]? with
    | none, some p =>
      if k < s.disk.shared.taken ∧ k ∉ s.answered then some { s with
        sender := some ⟨p.cookie, ret, s.ring.lastAdd, .check 200⟩
        answered := s.answered ++ [k] }
      else none
    | _, _ => none
  | .sender => s.sender.map (senderStep s)
  | .work => workStep mq s

def init : Sys where
  disk := Disk.init
  ring := ⟨vcablkQueueAckNums, 0, 0, fun _ ↦ ⟨0, 0⟩⟩
  sender := none
  work := .idle
  answered := []
  sent := []
  handed := []
  timeouts := 0

/-! ## The invariant -/

/-- The responses that were started, the last one perhaps not yet in the ring. -/
def started (s : Sys) : List VcablkCompletion :=
  s.sent ++ (s.sender.map fun x ↦ ⟨x.cookie, ackRet x.ret⟩).toList

/-- The response `a` answers part `k`. -/
def Answers (parts : List Part) (k : ℕ) (a : VcablkCompletion) : Prop :=
  ∃ p, parts[k]? = some p ∧ p.cookie = a.cookie

/-- How far the published `last_used` is ahead of the calls of `vcablk_disk_request_done`. -/
def Work.ahead : Work → ℕ
  | .done _ _ _ => 1
  | _ => 0

/-- How many slots were cleared ahead of these calls. -/
def Work.cleared : Work → ℕ
  | .clearRet _ _ _ => 1
  | .setLastUsed _ _ _ => 1
  | .done _ _ _ => 1
  | _ => 0

theorem Work.cleared_le (w : Work) : w.cleared ≤ 1 := by
  cases w <;> simp [Work.cleared]

/-- What the locals of the completion handler stand for. -/
def WorkOk (sent : List VcablkCompletion) (n : ℕ) : Work → Prop
  | .idle => True
  | .loop lastUsed => lastUsed = count vcablkQueueAckNums n
  | .readCookie lastUsed => lastUsed = count vcablkQueueAckNums n ∧ n < sent.length
  | .readRet lastUsed id => lastUsed = count vcablkQueueAckNums n ∧
      ∃ ret, sent[n]? = some ⟨id, ret⟩
  | .clearCookie lastUsed id ret => lastUsed = count vcablkQueueAckNums n ∧
      sent[n]? = some ⟨id, ret⟩
  | .clearRet lastUsed id ret => lastUsed = count vcablkQueueAckNums n ∧ sent[n]? = some ⟨id, ret⟩
  | .setLastUsed lastUsed id ret => lastUsed = count vcablkQueueAckNums (n + 1) ∧
      sent[n]? = some ⟨id, ret⟩
  | .done lastUsed id ret => lastUsed = count vcablkQueueAckNums (n + 1) ∧
      sent[n]? = some ⟨id, ret⟩
  | .running lastUsed => lastUsed = count vcablkQueueAckNums n

/-- What the response in progress has written. -/
structure SenderOk (s : Sys) (x : Sender) : Prop where
  lastAdd : x.lastAdd = count vcablkQueueAckNums s.sent.length
  ret : x.phase = .writeCookie →
    (s.ring.elems (slot vcablkQueueAckNums s.sent.length)).ret = ackRet x.ret
  ack : x.phase = .publish →
    s.ring.elems (slot vcablkQueueAckNums s.sent.length) = ⟨x.cookie, ackRet x.ret⟩

structure Inv (s : Sys) : Prop where
  disk : Disk.Inv s.disk
  arrivals : s.disk.shared.arrivals.map Prod.fst = s.answered.take s.handed.length
  nodup : s.answered.Nodup
  taken : ∀ k ∈ s.answered, k < s.disk.shared.taken
  answers : List.Forall₂ (Answers s.disk.shared.parts) s.answered (started s)
  handed : s.handed <+: s.sent
  lastAdd : s.ring.lastAdd = count vcablkQueueAckNums s.sent.length
  lastUsed : s.ring.lastUsed = count vcablkQueueAckNums (s.handed.length + s.work.ahead)
  stored : Stored vcablkQueueAckNums s.ring.elems s.sent (s.handed.length + s.work.cleared)
  sender : ∀ x, s.sender = some x → SenderOk s x
  work : WorkOk s.sent s.handed.length s.work
  handler : s.disk.handler.isSome → ∃ lastUsed, s.work = .running lastUsed
  timeouts : s.timeouts = 0

variable {s s' : Sys} {x : Sender} {mq : Bool}

theorem forall₂_getElem? {α β : Type} {R : α → β → Prop} {l : List α} {l' : List β} {i : ℕ} {b : β}
    (h : List.Forall₂ R l l') (hb : l'[i]? = some b) : ∃ a, l[i]? = some a ∧ R a b := by
  induction h generalizing i with
  | nil => simp at hb
  | cons hab _ ih =>
    cases i with
    | zero =>
      rw [List.getElem?_cons_zero, Option.some_inj] at hb
      exact ⟨_, rfl, hb ▸ hab⟩
    | succ i => exact ih hb

theorem Inv.handed_le (h : Inv s) : s.handed.length ≤ s.sent.length := h.handed.length_le

theorem Inv.answered_length (h : Inv s) :
    s.answered.length = s.sent.length + if s.sender.isSome then 1 else 0 := by
  rw [h.answers.length_eq, started, List.length_append]
  cases s.sender <;> rfl

/-- A response that was not handed over belongs to a part that is not answered. -/
theorem Inv.mem_live (h : Inv s) {k : ℕ} (hk : k ∈ s.answered.drop s.handed.length) :
    k ∈ s.disk.shared.live := by
  have hgood := h.disk.good
  have hlt := h.taken k (List.mem_of_mem_drop hk)
  have hle := hgood.ring.taken_le
  have hnot : k ∉ s.disk.shared.arrivals.map Prod.fst := fun hmem ↦ by
    rw [h.arrivals] at hmem
    exact List.disjoint_take_drop h.nodup le_rfl hmem hk
  have hmem := hgood.parts.heard.mem_iff.mpr (List.mem_range.mpr (hlt.trans_le hle))
  exact (List.mem_append.mp hmem).resolve_left hnot

/-- **There is room**: the responses on their way are no more than the slots. -/
theorem Inv.length_le (h : Inv s) :
    s.answered.length ≤ s.handed.length + vcablkQueueAckNums := by
  have hsub : s.answered.drop s.handed.length ⊆ s.disk.shared.live := fun k hk ↦ h.mem_live hk
  have hle := (h.nodup.sublist (List.drop_sublist _ _)).length_le_of_subset hsub
  have hlive : s.disk.shared.live.length ≤ vcablkQueueAckNums := h.disk.good.live_length_le
  rw [List.length_drop] at hle
  omega

theorem Inv.sender_length (h : Inv s) (hx : s.sender = some x) :
    s.sent.length < s.handed.length + vcablkQueueAckNums := by
  have hlen := h.answered_length
  have hle := h.length_le
  rw [hx, Option.isSome_some, if_pos rfl] at hlen
  omega

theorem Inv.sent_length (h : Inv s) : s.sent.length ≤ s.handed.length + vcablkQueueAckNums := by
  have hlen := h.answered_length
  have hle := h.length_le
  omega

theorem WorkOk.ahead_le {sent : List VcablkCompletion} {n : ℕ} {w : Work} (h : WorkOk sent n w)
    (hn : n ≤ sent.length) : n + w.ahead ≤ sent.length := by
  cases w with
  | done lastUsed id ret => exact (List.getElem?_eq_some_iff.mp h.2).1
  | _ => exact hn

/-- **The ring is not full** while a response is being written. -/
theorem Inv.not_full (h : Inv s) (hx : s.sender = some x) :
    vcaRbBuffFull x.lastAdd s.ring.lastUsed vcablkQueueAckNums = false := by
  have hlt := h.sender_length hx
  have hahead := h.work.ahead_le h.handed_le
  rw [(h.sender x hx).lastAdd, h.lastUsed]
  refine Bool.eq_false_iff.mpr fun hfull ↦ ?_
  have := (vcaRbBuffFull_count (k := 5) hahead
    (show s.sent.length ≤ s.handed.length + s.work.ahead + 2 ^ 5 by
      rw [vcablkQueueAckNums] at hlt
      omega)).mp hfull
  rw [vcablkQueueAckNums] at hlt
  omega

/-! ## Steps -/

theorem Answers.mono {parts parts' : List Part} {k : ℕ} {a : VcablkCompletion}
    (h : Answers parts k a) (hparts : parts <+: parts') : Answers parts' k a := by
  obtain ⟨p, hp, hc⟩ := h
  exact ⟨p, Disk.getElem?_of_isPrefix hparts hp, hc⟩

/-- A step of the frontend, or of the backend's fetching. -/
theorem Inv.disk_step {d : Disk.Sys} (h : Inv s) (hd : Disk.Inv d) (hgrows : Disk.Grows s.disk d) :
    Inv { s with disk := d } := by
  refine ⟨hd, ?_, h.nodup, fun k hk ↦ (h.taken k hk).trans_le hgrows.taken, ?_, h.handed, h.lastAdd,
    h.lastUsed, h.stored, fun x hx ↦ ⟨(h.sender x hx).lastAdd, (h.sender x hx).ret,
    (h.sender x hx).ack⟩, h.work, fun hsome ↦ ?_, h.timeouts⟩
  · rw [hgrows.arrivals]
    exact h.arrivals
  · exact h.answers.imp fun k a ha ↦ ha.mono hgrows.parts
  · refine h.handler ?_
    by_contra hnone
    rw [Bool.not_eq_true, Option.isSome_eq_false_iff, Option.isNone_iff_eq_none] at hnone
    rw [hgrows.handler hnone] at hsome
    exact Bool.false_ne_true hsome

theorem Inv.send_step {k : ℕ} {ret : ℤ} {p : Part} (h : Inv s) (hidle : s.sender = none)
    (hp : s.disk.shared.parts[k]? = some p) (hk : k < s.disk.shared.taken)
    (hnew : k ∉ s.answered) :
    Inv { s with
      sender := some ⟨p.cookie, ret, s.ring.lastAdd, .check 200⟩
      answered := s.answered ++ [k] } := by
  have hlen := h.answered_length
  rw [hidle, Option.isSome_none, if_neg Bool.false_ne_true, Nat.add_zero] at hlen
  have hstarted := h.answers
  rw [started, hidle, Option.map_none, Option.toList_none, List.append_nil] at hstarted
  refine ⟨h.disk, ?_, ?_, fun k' hk' ↦ ?_, ?_, h.handed, h.lastAdd, h.lastUsed, h.stored,
    fun x hx ↦ ?_, h.work, h.handler, h.timeouts⟩
  · rw [List.take_append_of_le_length (hlen ▸ h.handed_le)]
    exact h.arrivals
  · exact List.nodup_append.mpr ⟨h.nodup, List.nodup_singleton k, by
      rintro a ha b hb rfl
      exact hnew (List.mem_singleton.mp hb ▸ ha)⟩
  · rcases List.mem_append.mp hk' with hk' | hk'
    · exact h.taken k' hk'
    · exact List.mem_singleton.mp hk' ▸ hk
  · exact List.rel_append hstarted (.cons ⟨p, hp, rfl⟩ .nil)
  · cases hx
    exact ⟨h.lastAdd, nofun, nofun⟩

section Slots

variable {ring : VcablkRing VcablkCompletion} {f : VcablkCompletion → VcablkCompletion} {i : ℕ}

theorem getAck_count :
    getAck ring (count vcablkQueueAckNums i) = ring.elems (slot vcablkQueueAckNums i) :=
  congrArg ring.elems (vcaRbCounterToIdx_count 5 i)

theorem setAck_count :
    setAck ring (count vcablkQueueAckNums i) f = { ring with
      elems := update ring.elems (slot vcablkQueueAckNums i)
        (f (ring.elems (slot vcablkQueueAckNums i))) } := by
  have hidx : vcaRbCounterToIdx (count vcablkQueueAckNums i) vcablkQueueAckNums =
      slot vcablkQueueAckNums i := vcaRbCounterToIdx_count 5 i
  rw [setAck, hidx]

theorem counterAdd_count :
    vcaRbCounterAdd (count vcablkQueueAckNums i) 1 vcablkQueueAckNums =
      count vcablkQueueAckNums (i + 1) := vcaRbCounterAdd_count 5 i 1

end Slots

theorem WorkOk.snoc {sent : List VcablkCompletion} {n : ℕ} {w : Work} (h : WorkOk sent n w)
    (a : VcablkCompletion) : WorkOk (sent ++ [a]) n w := by
  have hget : ∀ {b}, sent[n]? = some b → (sent ++ [a])[n]? = some b := fun hb ↦
    Disk.getElem?_of_isPrefix (List.prefix_append _ _) hb
  cases w with
  | idle => trivial
  | loop lastUsed => exact h
  | running lastUsed => exact h
  | readCookie lastUsed =>
    exact ⟨h.1, h.2.trans_le (by rw [List.length_append]; exact Nat.le_add_right _ _)⟩
  | readRet lastUsed id =>
    obtain ⟨hu, ret, hsent⟩ := h
    exact ⟨hu, ret, hget hsent⟩
  | clearCookie lastUsed id ret => exact ⟨h.1, hget h.2⟩
  | clearRet lastUsed id ret => exact ⟨h.1, hget h.2⟩
  | setLastUsed lastUsed id ret => exact ⟨h.1, hget h.2⟩
  | done lastUsed id ret => exact ⟨h.1, hget h.2⟩

theorem Inv.sender_write {f : VcablkCompletion → VcablkCompletion} {phase : SendPhase} (h : Inv s)
    (hx : s.sender = some x)
    (hret : phase = .writeCookie →
      (f (s.ring.elems (slot vcablkQueueAckNums s.sent.length))).ret = ackRet x.ret)
    (hack : phase = .publish →
      f (s.ring.elems (slot vcablkQueueAckNums s.sent.length)) = ⟨x.cookie, ackRet x.ret⟩) :
    Inv { s with
      ring := setAck s.ring x.lastAdd f
      sender := some { x with phase := phase } } := by
  have hlast := (h.sender x hx).lastAdd
  have hroom := h.sender_length hx
  rw [hlast, setAck_count]
  refine ⟨h.disk, h.arrivals, h.nodup, h.taken, ?_, h.handed, h.lastAdd, h.lastUsed,
    h.stored.overwrite (by omega) _, fun y hy ↦ ?_, h.work, h.handler, h.timeouts⟩
  · have hanswers := h.answers
    rw [started, hx] at hanswers
    exact hanswers
  · cases hy
    refine ⟨rfl, fun hphase ↦ ?_, fun hphase ↦ ?_⟩
    · dsimp only
      rw [Function.update_self, hret hphase]
    · dsimp only
      rw [Function.update_self, hack hphase]

theorem Inv.sender_step (h : Inv s) (hx : s.sender = some x) : Inv (senderStep s x) := by
  have hok := h.sender x hx
  have hanswers := h.answers
  rw [started, hx] at hanswers
  rw [senderStep]
  cases hphase : x.phase with
  | check sleepCounter =>
    dsimp only
    rw [h.not_full hx, if_neg Bool.false_ne_true]
    refine ⟨h.disk, h.arrivals, h.nodup, h.taken, hanswers, h.handed, h.lastAdd, h.lastUsed,
      h.stored, fun y hy ↦ ?_, h.work, h.handler, h.timeouts⟩
    cases hy
    exact ⟨hok.lastAdd, nofun, nofun⟩
  | writeRet => exact h.sender_write hx (fun _ ↦ rfl) nofun
  | writeCookie =>
    refine h.sender_write hx nofun fun _ ↦ ?_
    rw [VcablkCompletion.setCookie, hok.ret hphase]
  | publish =>
    rw [hok.lastAdd, counterAdd_count]
    refine ⟨h.disk, h.arrivals, h.nodup, h.taken, ?_, h.handed.trans (List.prefix_append _ _), ?_,
      h.lastUsed, h.stored.snoc (hok.ack hphase), nofun, h.work.snoc _, h.handler,
      h.timeouts⟩
    · rw [started, Option.map_none, Option.toList_none, List.append_nil]
      exact hanswers
    · rw [List.length_append, List.length_singleton]

theorem Inv.work_local {w : Work} (h : Inv s) (hwork : WorkOk s.sent s.handed.length w)
    (hahead : w.ahead = s.work.ahead) (hcleared : w.cleared = s.work.cleared)
    (hhandler : s.disk.handler = none) : Inv { s with work := w } := by
  refine ⟨h.disk, h.arrivals, h.nodup, h.taken, h.answers, h.handed, h.lastAdd, ?_, ?_,
    fun x hx ↦ ⟨(h.sender x hx).lastAdd, (h.sender x hx).ret, (h.sender x hx).ack⟩, hwork,
    fun hsome ↦ ?_, h.timeouts⟩
  · rw [hahead]
    exact h.lastUsed
  · rw [hcleared]
    exact h.stored
  · rw [hhandler] at hsome
    exact absurd hsome Bool.false_ne_true

theorem Inv.work_clear {f : VcablkCompletion → VcablkCompletion} {w : Work} {a : VcablkCompletion}
    (h : Inv s) (hsent : s.sent[s.handed.length]? = some a)
    (hwork : WorkOk s.sent s.handed.length w) (hahead : w.ahead = s.work.ahead)
    (hcleared : w.cleared = 1) (hhandler : s.disk.handler = none) :
    Inv { s with
      ring := setAck s.ring (count vcablkQueueAckNums s.handed.length) f
      work := w } := by
  have hlt : s.handed.length < s.sent.length := (List.getElem?_eq_some_iff.mp hsent).1
  rw [setAck_count]
  refine ⟨h.disk, h.arrivals, h.nodup, h.taken, h.answers, h.handed, h.lastAdd, ?_, ?_,
    fun x hx ↦ ?_, hwork, fun hsome ↦ ?_, h.timeouts⟩
  · dsimp only
    rw [hahead]
    exact h.lastUsed
  · dsimp only
    rw [hcleared]
    have hle := s.work.cleared_le
    exact (h.stored.mono (by omega)).overwrite_before h.sent_length _
  · -- The response in progress has another slot.
    have hok := h.sender x hx
    have hne : slot vcablkQueueAckNums s.sent.length ≠ slot vcablkQueueAckNums s.handed.length :=
      (slot_ne hlt (h.sender_length hx)).symm
    refine ⟨hok.lastAdd, fun hphase ↦ ?_, fun hphase ↦ ?_⟩
    · dsimp only
      rw [Function.update_of_ne hne]
      exact hok.ret hphase
    · dsimp only
      rw [Function.update_of_ne hne]
      exact hok.ack hphase
  · rw [hhandler] at hsome
    exact absurd hsome Bool.false_ne_true

/-- **The response that is handed over** answers a part with a context in use. -/
theorem Inv.next (h : Inv s) {a : VcablkCompletion} (ha : s.sent[s.handed.length]? = some a) :
    ∃ k p, s.answered[s.handed.length]? = some k ∧ k ∈ s.disk.shared.live ∧
      k < s.disk.shared.taken ∧ s.disk.shared.parts[k]? = some p ∧ p.cookie = a.cookie := by
  have hstarted : (started s)[s.handed.length]? = some a :=
    Disk.getElem?_of_isPrefix (List.prefix_append _ _) ha
  obtain ⟨k, hk, p, hp, hc⟩ := forall₂_getElem? h.answers hstarted
  refine ⟨k, p, hk, h.mem_live ?_, h.taken k (List.mem_of_getElem? hk), hp, hc⟩
  have hdrop : (s.answered.drop s.handed.length)[0]? = some k := by
    rw [List.getElem?_drop]
    exact hk
  exact List.mem_of_getElem? hdrop

theorem findPart_eq {t : Shared} {k : ℕ} {p : Part} (h : Disk.Good t) (hk : k ∈ t.live)
    (hp : t.parts[k]? = some p) : findPart t p.cookie = some k := by
  rw [findPart]
  cases hfind : t.live.find? fun k ↦ t.parts[k]?.map Part.cookie = some p.cookie with
  | none =>
    have := List.find?_eq_none.mp hfind k hk
    simp [hp] at this
  | some k' =>
    have hmem := List.mem_of_find?_eq_some hfind
    have hcookie := List.find?_some hfind
    obtain ⟨p', hp', hc⟩ := Option.map_eq_some_iff.mp (of_decide_eq_true hcookie)
    rw [h.eq_of_cookie_eq hmem hk hp' hp hc]

theorem Inv.hand_over {lastUsed id ret : ℕ} (h : Inv s) (hw : s.work = .done lastUsed id ret)
    {d : Disk.Sys} (hd : requestDone mq s.disk id ret = some d) :
    Inv { s with
      disk := d
      work := .running lastUsed
      handed := s.handed ++ [⟨id, ret⟩] } := by
  have hwork := h.work
  have hused := h.lastUsed
  have hstored := h.stored
  rw [hw] at hwork hused hstored
  obtain ⟨hu, hsent⟩ := hwork
  obtain ⟨k, p, hk, hlive, htaken, hp, hc⟩ := h.next hsent
  have hlt : s.handed.length < s.sent.length := (List.getElem?_eq_some_iff.mp hsent).1
  have hcookie : p.cookie = id := hc
  have hfind : findPart s.disk.shared id = some k := hcookie ▸ findPart_eq h.disk.good hlive hp
  rw [requestDone, hfind] at hd
  have hinv : Disk.Inv d := h.disk.step hd
  dsimp only at hd
  rw [Disk.step] at hd
  split at hd
  case h_2 => cases hd
  rename_i q _ hq
  rw [if_pos ⟨hlive, htaken⟩] at hd
  cases hd
  refine ⟨hinv, ?_, h.nodup, h.taken, h.answers, isPrefix_snoc h.handed hsent, h.lastAdd, ?_, ?_,
    fun x hx ↦ ⟨(h.sender x hx).lastAdd, (h.sender x hx).ret, (h.sender x hx).ack⟩, ?_,
    fun _ ↦ ⟨lastUsed, rfl⟩, h.timeouts⟩
  · rw [Disk.Shared.answer_arrivals, List.map_append, h.arrivals, List.length_append,
      List.length_singleton, List.take_add_one, hk]
    rfl
  · rw [List.length_append, List.length_singleton]
    exact hused
  · rw [List.length_append, List.length_singleton]
    exact hstored
  · rw [List.length_append, List.length_singleton]
    exact hu

theorem Inv.work_step (h : Inv s) (hs : workStep mq s = some s') : Inv s' := by
  have hwork := h.work
  have hused := h.lastUsed
  have hstored := h.stored
  -- Outside `vcablk_disk_request_done` the handler of the disk is idle.
  have hrest : (∀ lastUsed, s.work ≠ .running lastUsed) → s.disk.handler = none := fun hne ↦ by
    by_contra hsome
    obtain ⟨lastUsed, hw⟩ := h.handler (Option.isSome_iff_ne_none.mpr hsome)
    exact hne lastUsed hw
  rw [workStep] at hs
  cases hw : s.work with
  | idle =>
    rw [hw] at hs hused hrest
    cases hs
    exact h.work_local hused (by rw [hw]; rfl) (by rw [hw]; rfl) (hrest nofun)
  | loop lastUsed =>
    rw [hw] at hs hwork hrest
    dsimp only at hs
    split at hs
    · cases hs
      exact h.work_local trivial (by rw [hw]; rfl) (by rw [hw]; rfl) (hrest nofun)
    · rename_i hne
      cases hs
      refine h.work_local ⟨hwork, lt_of_le_of_ne h.handed_le fun heq ↦ hne ?_⟩ (by rw [hw]; rfl)
        (by rw [hw]; rfl) (hrest nofun)
      rw [show lastUsed = _ from hwork, h.lastAdd, heq]
  | readCookie lastUsed =>
    rw [hw] at hs hwork hrest hstored
    cases hs
    obtain ⟨rfl, hlt⟩ := hwork
    have hget := List.getElem?_eq_getElem hlt
    have hack := hstored s.handed.length _ le_rfl hget
    refine h.work_local ⟨rfl, s.sent[s.handed.length].ret, ?_⟩ (by rw [hw]; rfl) (by rw [hw]; rfl)
      (hrest nofun)
    rw [getAck_count, hack, hget]
  | readRet lastUsed id =>
    rw [hw] at hs hwork hrest hstored
    cases hs
    obtain ⟨rfl, ret, hget⟩ := hwork
    have hack := hstored s.handed.length _ le_rfl hget
    refine h.work_local ⟨rfl, ?_⟩ (by rw [hw]; rfl) (by rw [hw]; rfl) (hrest nofun)
    rw [getAck_count, hack, hget]
  | clearCookie lastUsed id ret =>
    rw [hw] at hs hwork hrest
    cases hs
    obtain ⟨rfl, hget⟩ := hwork
    exact h.work_clear hget ⟨rfl, hget⟩ (by rw [hw]; rfl) rfl (hrest nofun)
  | clearRet lastUsed id ret =>
    rw [hw] at hs hwork hrest
    cases hs
    obtain ⟨rfl, hget⟩ := hwork
    rw [counterAdd_count]
    exact h.work_clear hget ⟨rfl, hget⟩ (by rw [hw]; rfl) rfl (hrest nofun)
  | setLastUsed lastUsed id ret =>
    rw [hw] at hs hwork hrest hstored
    cases hs
    obtain ⟨rfl, hget⟩ := hwork
    refine ⟨h.disk, h.arrivals, h.nodup, h.taken, h.answers, h.handed, h.lastAdd, rfl, hstored,
      fun x hx ↦ ⟨(h.sender x hx).lastAdd, (h.sender x hx).ret, (h.sender x hx).ack⟩, ⟨rfl, hget⟩,
      fun hsome ↦ ?_, h.timeouts⟩
    rw [hrest nofun] at hsome
    exact absurd hsome Bool.false_ne_true
  | done lastUsed id ret =>
    rw [hw] at hs
    obtain ⟨d, hd, rfl⟩ := Option.map_eq_some_iff.mp hs
    exact h.hand_over hw hd
  | running lastUsed =>
    rw [hw] at hs hwork
    dsimp only at hs
    split at hs
    · cases hs
    · rename_i hnone
      cases hs
      rw [Bool.not_eq_true, Option.isSome_eq_false_iff, Option.isNone_iff_eq_none] at hnone
      exact h.work_local hwork (by rw [hw]; rfl) (by rw [hw]; rfl) hnone

theorem Inv.step {l : Label} (h : Inv s) (hs : CompletionRing.step mq s l = some s') : Inv s' := by
  cases l with
  | disk l =>
    have hl : ∀ k ret, l ≠ .answer k ret := by
      rintro k ret rfl
      rw [CompletionRing.step] at hs
      cases hs
    obtain ⟨d, hd, rfl⟩ : ∃ d, Disk.step mq s.disk l = some d ∧ { s with disk := d } = s' := by
      rw [CompletionRing.step.eq_def] at hs
      cases l <;> first
        | exact absurd rfl (hl _ _)
        | exact Option.map_eq_some_iff.mp hs
    exact h.disk_step (h.disk.step hd) (.of_step hl hd)
  | send k ret =>
    rw [CompletionRing.step] at hs
    split at hs
    · rename_i p hidle hp
      split at hs
      · rename_i hk
        cases hs
        exact h.send_step hidle hp hk.1 hk.2
      · cases hs
    · cases hs
  | sender =>
    rw [CompletionRing.step] at hs
    obtain ⟨x, hx, rfl⟩ := Option.map_eq_some_iff.mp hs
    exact h.sender_step hx
  | work => exact h.work_step hs

/-! ## Runs -/

theorem inv_init : Inv init where
  disk := Disk.inv_init
  arrivals := rfl
  nodup := List.nodup_nil
  taken k hk := absurd hk (by simp [init])
  answers := .nil
  handed := List.prefix_refl _
  lastAdd := rfl
  lastUsed := rfl
  stored := .nil
  sender x hx := by cases hx
  work := trivial
  handler hsome := by cases hsome
  timeouts := rfl

theorem exec_inv {ls : List Label} (h : exec (step mq) init ls = some s) : Inv s :=
  exec_invariant (P := fun _ _ _ ↦ True) (fun hs _ hstep ↦ Inv.step hs hstep)
    (along_of_forall fun _ _ _ ↦ trivial) inv_init h

/-- **Every response is handed over once, in order.** In every run the ring has room for a response
that is being written, and no response is given up; `vcablk_disk_request_done` has been called for
the first responses sent, with their cookies and codes, and for all of them whenever the handler is
about to leave its loop; and each cookie it is called with names a context in use. -/
theorem responses_handed_in_order {ls : List Label} (h : exec (step mq) init ls = some s) :
    (∀ x, s.sender = some x →
      vcaRbBuffFull x.lastAdd s.ring.lastUsed vcablkQueueAckNums = false) ∧
    s.timeouts = 0 ∧ s.handed <+: s.sent ∧
    (∀ lastUsed, s.work = .loop lastUsed → lastUsed = s.ring.lastAdd → s.handed = s.sent) ∧
    ∀ lastUsed id ret, s.work = .done lastUsed id ret →
      s.sent[s.handed.length]? = some ⟨id, ret⟩ ∧ id ≠ 0 ∧
        s.disk.shared.pool.vcablkPoolGetById (id - 1) = some (id - 1) := by
  have hinv := exec_inv h
  have hwork := hinv.work
  refine ⟨fun x hx ↦ hinv.not_full hx, hinv.timeouts, hinv.handed, fun lastUsed hw heq ↦ ?_,
    fun lastUsed id ret hw ↦ ?_⟩
  · rw [hw, WorkOk] at hwork
    rw [hwork, hinv.lastAdd] at heq
    have hlen := (count_eq_count (by decide) hinv.handed_le hinv.sent_length).mp heq
    exact hinv.handed.eq_of_length hlen
  · rw [hw] at hwork
    obtain ⟨k, p, -, hlive, -, hp, hc⟩ := hinv.next hwork.2
    have hcookie : p.ctx + 1 = id := hc
    refine ⟨hwork.2, by omega, ?_⟩
    rw [← hcookie, Nat.add_sub_cancel]
    exact hinv.disk.good.getById_of_live hlive hp

/-- One WRITE is published and fetched, and answered with `-EIO`. -/
def writeRun : List Label :=
  List.map Label.disk [.requestFn ⟨1, 8, [4096]⟩, .dequeue, .thread 1, .thread 1, .thread 1, .thread 7,
    .thread 1, .thread 1, .thread 1, .fetch 0, .fetch 0, .fetch 0, .fetch 0, .fetch 0, .fetch 0, .fetch 0] ++
    [Label.send 0 (-5), Label.sender, Label.sender, Label.sender, Label.sender, Label.work, Label.work,
      Label.work, Label.work, Label.work, Label.work, Label.work]

theorem write_response_handed :
    ∃ s, exec (step true) init writeRun = some s ∧ s.sent = [⟨1, 251⟩] ∧ s.work = .done 1 1 251 ∧
      s.disk.shared.pool.vcablkPoolGetById 0 = some 0 := by
  have hrun : (exec (step true) init writeRun).map (fun s ↦ (s.sent, s.work)) =
      some ([⟨1, 251⟩], .done 1 1 251) := by decide +kernel
  obtain ⟨s, hs, heq⟩ := Option.map_eq_some_iff.mp hrun
  obtain ⟨hsent, hw⟩ := Prod.mk.inj heq
  exact ⟨s, hs, hsent, hw, ((responses_handed_in_order hs).2.2.2.2 1 1 251 hw).2.2⟩

end Vcass.BlockIo.CompletionRing
