import Mathlib.Data.List.Count
import Vcass.BlockIo.Bcknd.System

/-!
# Block I/O backend: the transfer pipeline

What the backend is for, with its queues as lists. A group is cut into page-sized *chunks*; the
request thread pushes them one after the other, each in its own buffer, into a pipeline

```text
request thread → DMA engine → finished → callback → transfer ring → transfer thread → pool
```

which every buffer passes in order. A failure of the request thread drops the rest of its group and
answers it at once.

The request thread is an automaton over the entries and chunks still to be done, so the loops of the
code are gone; `Step` lists everything the backend can do. `Vcass.BlockIo.Bcknd.Refine` shows that
the code does nothing else.
-/

namespace Vcass.BlockIo.Bcknd

/-! ## Chunks -/

/-- A page-sized piece of an entry. `last` marks the last piece, which releases the window. -/
structure Chunk where
  sector : ℕ
  nsec : ℕ
  off : ℕ
  isWrite : Bool
  cookie : ℤ
  doFlush : Bool
  last : Bool
  deriving DecidableEq, Repr

def Chunk.param (c : Chunk) (w : Window) : CallbackParam where
  sector := c.sector
  nsec := c.nsec
  remapped := if c.last then some w else none
  responseCookie := c.cookie
  isWrite := c.isWrite
  doFlush := c.doFlush

def Chunk.desc (c : Chunk) (w : Window) (b : ℕ) : DmaDesc :=
  ⟨b, w, c.off, c.nsec <<< sectorShift, c.isWrite⟩

/-- The chunks of `left` sectors from `sector` on, at offset `off` of the window. Only the last one
carries the cookie and the flush flag. -/
def chunks (write : Bool) (cookie : ℤ) (flush : Bool) : (fuel left sector off : ℕ) → List Chunk
  | 0, _, _, _ => []
  | fuel + 1, left, sector, off =>
    if left = 0 then [] else
      let nsec := min left (pageSize >>> sectorShift)
      { sector := sector
        nsec := nsec
        off := off
        isWrite := write
        cookie := if left - nsec = 0 then cookie else -1
        doFlush := if left - nsec = 0 then flush else false
        last := left - nsec = 0 } ::
        chunks write cookie flush fuel (left - nsec) (sector + nsec) (off + nsec <<< sectorShift)

/-- An entry of a group: the window it needs and its chunks. -/
structure Entry where
  phys : ℕ
  len : ℕ
  chunks : List Chunk

/-- The chunks of one ring entry. -/
def entryOf (write : Bool) (cookie : ℤ) (flush : Bool) (r : VcablkRequest) : Entry :=
  ⟨r.physBuff, r.sectorsNum <<< sectorShift,
    chunks write cookie flush r.sectorsNum r.sectorsNum r.sector 0⟩

/-- The entries of a group; only the last carries the cookie and the flush flag. -/
def entries (write : Bool) (cookie : ℕ) (flush : Bool) : List VcablkRequest → List Entry
  | [] => []
  | r :: rest =>
    entryOf write (if rest = [] then (cookie : ℤ) else -1) (if rest = [] then flush else false) r ::
      entries write cookie flush rest

/-- The entries of a group between its SYNC entries, from index `id` on. -/
def dataEntries (g : List VcablkRequest) (info : RequestInfo) (id : ℕ) : List Entry :=
  entries (info.type = .write) info.cookie info.syncAfter
    ((g.take (if info.syncAfter then g.length - 1 else g.length)).drop id)

/-! ## The automata of the three threads -/

/-- The request thread: what is left of the group, and what it holds. -/
inductive ReqSt
  | idle
  | lead (cookie : ℕ) (es : List Entry)
  | next (cookie : ℕ) (e : Entry) (es : List Entry)
  | inEntry (cookie : ℕ) (w : Window) (c : Chunk) (cs : List Chunk) (es : List Entry)
  | popped (cookie : ℕ) (w : Window) (b : ℕ) (c : Chunk) (cs : List Chunk) (es : List Entry)
  | toLoad (cookie : ℕ) (w : Window) (b : ℕ) (c : Chunk) (cs : List Chunk) (es : List Entry)
  | toSubmit (cookie : ℕ) (w : Window) (b : ℕ) (c : Chunk) (cs : List Chunk) (es : List Entry)
  | abort (cookie : ℕ) (w : Option Window) (err : ℤ)
  | done

namespace ReqSt

/-- Go on with the entries `es`, or finish. -/
def settle (cookie : ℕ) : List Entry → ReqSt
  | [] => done
  | e :: es => next cookie e es

/-- Go on with the chunks `cs` of the current entry, or with the next entry. -/
def proceed (cookie : ℕ) (w : Window) (cs : List Chunk) (es : List Entry) : ReqSt :=
  match cs with
  | [] => settle cookie es
  | c :: cs => inEntry cookie w c cs es

/-- The state in which a group is taken up. -/
def start (g : List VcablkRequest) : ReqSt :=
  let (err, info) := vcablkBckndDiskRequestGetInfo g
  if err ≠ 0 then abort info.cookie none err
  else if info.syncBefore then lead info.cookie (dataEntries g info 1)
  else settle info.cookie (dataEntries g info 0)

/-- The buffer the request thread holds. -/
def hand : ReqSt → List ℕ
  | popped _ _ b _ _ _ => [b]
  | toLoad _ _ b _ _ _ => [b]
  | toSubmit _ _ b _ _ _ => [b]
  | _ => []

section Hand

variable {cookie b : ℕ} {w : Window} {c : Chunk} {cs : List Chunk} {e : Entry} {es : List Entry}

@[simp] theorem hand_idle : idle.hand = [] := rfl
@[simp] theorem hand_lead : (lead cookie es).hand = [] := rfl
@[simp] theorem hand_next : (next cookie e es).hand = [] := rfl
@[simp] theorem hand_inEntry : (inEntry cookie w c cs es).hand = [] := rfl
@[simp] theorem hand_popped : (popped cookie w b c cs es).hand = [b] := rfl
@[simp] theorem hand_toLoad : (toLoad cookie w b c cs es).hand = [b] := rfl
@[simp] theorem hand_toSubmit : (toSubmit cookie w b c cs es).hand = [b] := rfl
@[simp] theorem hand_abort {w : Option Window} {err : ℤ} : (abort cookie w err).hand = [] := rfl
@[simp] theorem hand_done : done.hand = [] := rfl

end Hand

@[simp] theorem hand_settle (cookie : ℕ) (es : List Entry) : (settle cookie es).hand = [] := by
  cases es <;> rfl

@[simp] theorem hand_proceed (cookie : ℕ) (w : Window) (cs : List Chunk) (es : List Entry) :
    (proceed cookie w cs es).hand = [] := by
  cases cs
  · exact hand_settle cookie es
  · rfl

@[simp] theorem hand_start (g : List VcablkRequest) : (start g).hand = [] := by
  rw [start]
  split
  split
  · rfl
  · split
    · rfl
    · exact hand_settle _ _

end ReqSt

/-- The DMA callback. -/
inductive CbSt
  | idle
  | unmap (b : ℕ) (p : CallbackParam) (w : Window)
  | clear (b : ℕ) (p : CallbackParam)
  | holding (b : ℕ)

namespace CbSt

def start (b : ℕ) (p : CallbackParam) : CbSt :=
  match p.remapped with
  | some w => unmap b p w
  | none => holding b

def hand : CbSt → List ℕ
  | idle => []
  | unmap b _ _ => [b]
  | clear b _ => [b]
  | holding b => [b]

section Hand

variable {b : ℕ} {p : CallbackParam} {w : Window}

@[simp] theorem hand_idle : idle.hand = [] := rfl
@[simp] theorem hand_unmap : (unmap b p w).hand = [b] := rfl
@[simp] theorem hand_clear : (clear b p).hand = [b] := rfl
@[simp] theorem hand_holding : (holding b).hand = [b] := rfl

end Hand

@[simp] theorem hand_start (b : ℕ) (p : CallbackParam) : (start b p).hand = [b] := by
  rw [start]
  split <;> rfl

end CbSt

/-- The transfer thread. In `pushed` the buffer is back in the pool and only the ring slot is still
taken. -/
inductive XfSt
  | idle
  | took (b : ℕ) (p : CallbackParam)
  | toStore (b : ℕ) (p : CallbackParam)
  | toSync (b : ℕ) (p : CallbackParam)
  | toRespond (b : ℕ) (p : CallbackParam) (err : ℤ)
  | toPush (b : ℕ)
  | pushed (b : ℕ)

namespace XfSt

/-- What follows the media write of a chunk, or the lack of one. -/
def stored (b : ℕ) (p : CallbackParam) (err : ℤ) : XfSt :=
  if 0 ≤ p.responseCookie then
    if err = 0 ∧ p.doFlush then toSync b p else toRespond b p err
  else toPush b

/-- The first thing done for a chunk. -/
def begun (b : ℕ) (p : CallbackParam) : XfSt := if p.isWrite then toStore b p else stored b p 0

def hand : XfSt → List ℕ
  | idle => []
  | took b _ => [b]
  | toStore b _ => [b]
  | toSync b _ => [b]
  | toRespond b _ _ => [b]
  | toPush b => [b]
  | pushed _ => []

section Hand

variable {b : ℕ} {p : CallbackParam} {err : ℤ}

@[simp] theorem hand_idle : idle.hand = [] := rfl
@[simp] theorem hand_took : (took b p).hand = [b] := rfl
@[simp] theorem hand_toStore : (toStore b p).hand = [b] := rfl
@[simp] theorem hand_toSync : (toSync b p).hand = [b] := rfl
@[simp] theorem hand_toRespond : (toRespond b p err).hand = [b] := rfl
@[simp] theorem hand_toPush : (toPush b).hand = [b] := rfl
@[simp] theorem hand_pushed : (pushed b).hand = [] := rfl

end Hand

@[simp] theorem hand_stored (b : ℕ) (p : CallbackParam) (err : ℤ) : (stored b p err).hand = [b] := by
  rw [stored]
  split
  · split <;> rfl
  · rfl

@[simp] theorem hand_begun (b : ℕ) (p : CallbackParam) : (begun b p).hand = [b] := by
  rw [begun]
  split
  · rfl
  · exact hand_stored b p 0

end XfSt

/-! ## The machine -/

/-- The backend with its pool and its transfer ring as lists. -/
structure Pipe where
  core : Core
  free : List ℕ
  queue : List ℕ
  req : ReqSt
  cb : CbSt
  xf : XfSt

namespace Pipe

/-- The buffers in the pipeline, the one next to complete first. -/
def flight (a : Pipe) : List ℕ :=
  a.xf.hand ++ a.queue ++ a.cb.hand ++ a.core.done ++ a.core.dma.map DmaDesc.buf

/-- Everything the backend can do. -/
inductive Step : Pipe → Pipe → Prop
  | fetch {a : Pipe} (g : List VcablkRequest) (h : a.req = .idle) :
      Step a { a with core := a.core.fetch g, req := .start g }
  | finish {a : Pipe} (h : a.req = .done) : Step a { a with req := .idle }
  | leadSync {a : Pipe} {cookie : ℕ} {es : List Entry} (r : ℤ) (h : a.req = .lead cookie es)
      (hr : isErrno r = true) :
      Step a { a with
        core := a.core.emit (.sync a.core.cur true r)
        req := if r = 0 then .settle cookie es else .abort cookie none r }
  | remapFail {a : Pipe} {cookie : ℕ} {e : Entry} {es : List Entry}
      (h : a.req = .next cookie e es) :
      Step a { a with
        core := a.core.emit (.remap a.core.cur none)
        req := .abort cookie none (-eio) }
  | remap {a : Pipe} {cookie : ℕ} {e : Entry} {es : List Entry}
      (h : a.req = .next cookie e es) :
      Step a { a with
        core := a.core.remap e.phys
        req := .proceed cookie ⟨a.core.nextWin, e.phys⟩ e.chunks es }
  | pop {a : Pipe} {cookie : ℕ} {w : Window} {c : Chunk} {cs : List Chunk} {es : List Entry}
      {b b' : ℕ} {free : List ℕ} (h : a.req = .inEntry cookie w c cs es)
      (hfree : a.free = b :: b' :: free) :
      Step a { a with
        core := a.core.taken b
        free := b' :: free
        req := .popped cookie w b c cs es }
  | fill {a : Pipe} {cookie : ℕ} {w : Window} {b : ℕ} {c : Chunk} {cs : List Chunk}
      {es : List Entry} (h : a.req = .popped cookie w b c cs es) :
      Step a { a with
        core := a.core.setParam b (c.param w)
        req := if c.isWrite then .toSubmit cookie w b c cs es else .toLoad cookie w b c cs es }
  | load {a : Pipe} {cookie : ℕ} {w : Window} {b : ℕ} {c : Chunk} {cs : List Chunk}
      {es : List Entry} (r : ℤ) (h : a.req = .toLoad cookie w b c cs es)
      (hr : isErrno r = true) :
      Step a { a with
        core := a.core.load c.sector c.nsec b r
        req := if r = 0 then .toSubmit cookie w b c cs es else .abort cookie (some w) r }
  | submit {a : Pipe} {cookie : ℕ} {w : Window} {b : ℕ} {c : Chunk} {cs : List Chunk}
      {es : List Entry} (ck : ℤ) (h : a.req = .toSubmit cookie w b c cs es) :
      Step a { a with
        core := a.core.submit (c.desc w b) ck
        req := if ck < 0 then .abort cookie (some w) (-enomem) else .proceed cookie w cs es }
  | abortUnmap {a : Pipe} {cookie : ℕ} {w : Window} {err : ℤ}
      (h : a.req = .abort cookie (some w) err) :
      Step a { a with core := a.core.emit (.unmap w), req := .abort cookie none err }
  | abortRespond {a : Pipe} {cookie : ℕ} {err : ℤ} (h : a.req = .abort cookie none err) :
      Step a { a with
        core := a.core.emit (.response a.core.cur cookie (s8 err))
        req := .done }
  | move {a : Pipe} {d : DmaDesc} {rest : List DmaDesc} (h : a.core.dma = d :: rest) :
      Step a { a with core := a.core.move d rest }
  | cbStart {a : Pipe} {b : ℕ} {rest : List ℕ} (hcb : a.cb = .idle)
      (h : a.core.done = b :: rest) :
      Step a { a with
        core := { a.core with done := rest }
        cb := .start b (a.core.param b) }
  | cbUnmap {a : Pipe} {b : ℕ} {p : CallbackParam} {w : Window} (h : a.cb = .unmap b p w) :
      Step a { a with core := a.core.emit (.unmap w), cb := .clear b p }
  | cbClear {a : Pipe} {b : ℕ} {p : CallbackParam} (h : a.cb = .clear b p) :
      Step a { a with
        core := a.core.setParam b { p with remapped := none }
        cb := .holding b }
  | enqueue {a : Pipe} {b : ℕ} (h : a.cb = .holding b) :
      Step a { a with queue := a.queue ++ [b], cb := .idle }
  | take {a : Pipe} {b : ℕ} {rest : List ℕ} (hxf : a.xf = .idle) (h : a.queue = b :: rest) :
      Step a { a with queue := rest, xf := .took b (a.core.param b) }
  | clearTx {a : Pipe} {b : ℕ} {p : CallbackParam} (h : a.xf = .took b p) :
      Step a { a with core := a.core.clearTx b, xf := .begun b p }
  | store {a : Pipe} {b : ℕ} {p : CallbackParam} (r : ℤ) (h : a.xf = .toStore b p)
      (hr : isErrno r = true) :
      Step a { a with core := a.core.store p.sector p.nsec b r, xf := .stored b p r }
  | flush {a : Pipe} {b : ℕ} {p : CallbackParam} (r : ℤ) (h : a.xf = .toSync b p)
      (hr : isErrno r = true) :
      Step a { a with
        core := a.core.emit (.sync (a.core.group b) false r)
        xf := .toRespond b p r }
  | respond {a : Pipe} {b : ℕ} {p : CallbackParam} {err : ℤ} (h : a.xf = .toRespond b p err) :
      Step a { a with
        core := a.core.emit (.response (a.core.group b) p.responseCookie.toNat (s8 err))
        xf := .toPush b }
  | push {a : Pipe} {b : ℕ} (h : a.xf = .toPush b) :
      Step a { a with
        core := a.core.emit (.push (a.core.group b) b)
        free := a.free ++ [b]
        xf := .pushed b }
  | release {a : Pipe} {b : ℕ} (h : a.xf = .pushed b) : Step a { a with xf := .idle }

/-! ## Who owns a buffer -/

end Pipe

/-- The event loses buffer `b`: the request thread gives up while it holds it. -/
def Event.loses (b : ℕ) : Event → Bool
  | .load _ b' _ ret _ => b' == b && ret != 0
  | .submit _ _ d cookie => d.buf == b && decide (cookie < 0)
  | _ => false

/-- How often buffer `b` was lost. -/
def lost (log : List Event) (b : ℕ) : ℕ := log.countP (Event.loses b)

@[simp] theorem lost_append (l l' : List Event) (b : ℕ) :
    lost (l ++ l') b = lost l b + lost l' b := List.countP_append

namespace Pipe

/-- **Ownership.** Every buffer is in the pool, in the hand of the request thread, in the pipeline or
lost, and in exactly one of these places. -/
def Owned (a : Pipe) : Prop :=
  ∀ b, a.free.count b + a.req.hand.count b + a.flight.count b + lost a.core.log b =
    if b < vcablkTransferRingSize then 1 else 0

section Owned

variable {a : Pipe} {b : ℕ}

theorem Owned.count_le (h : Owned a) (b : ℕ) :
    a.free.count b + a.req.hand.count b + a.flight.count b ≤ 1 := by
  have := h b
  split at this <;> omega

theorem Owned.notMem_flight_of_hand (h : Owned a) (hb : b ∈ a.req.hand) : b ∉ a.flight := by
  have hle := h.count_le b
  have hpos := List.count_pos_iff.mpr hb
  exact List.count_eq_zero.mp (by omega)

theorem Owned.notMem_flight_of_free (h : Owned a) (hb : b ∈ a.free) : b ∉ a.flight := by
  have hle := h.count_le b
  have hpos := List.count_pos_iff.mpr hb
  exact List.count_eq_zero.mp (by omega)

theorem Owned.nodup_flight (h : Owned a) : a.flight.Nodup :=
  List.nodup_iff_count_le_one.mpr fun b ↦ by
    have := h.count_le b
    omega

end Owned

section OwnedStep

attribute [local simp] lost Event.loses flight Chunk.desc List.count_cons

theorem Owned.step {a a' : Pipe} (h : Owned a) (hs : Step a a') : Owned a' := by
  intro x
  have hx := h x
  cases hs with
  | fetch g hreq => simpa [hreq] using hx
  | finish hreq => simpa [hreq] using hx
  | leadSync r hreq hr => split <;> simpa [hreq] using hx
  | remapFail hreq => simpa [hreq] using hx
  | remap hreq => simpa [hreq] using hx
  | pop hreq hfree => simpa [hreq, hfree] using hx
  | fill hreq =>
    dsimp only
    split <;> simpa [hreq] using hx
  | load r hreq hr =>
    -- A failed read gives up the buffer, which then counts as lost.
    dsimp only
    split <;> simp_all
    omega
  | submit ck hreq =>
    by_cases hck : ck < 0
    · simp_all
      omega
    · simp_all [if_neg hck]
      omega
  | abortUnmap hreq => simpa [hreq] using hx
  | abortRespond hreq => simpa [hreq] using hx
  | move hd => simpa [hd] using hx
  | cbStart hcb hd => simpa [hcb, hd] using hx
  | cbUnmap hcb => simpa [hcb] using hx
  | cbClear hcb => simpa [hcb] using hx
  | enqueue hcb => simpa [hcb] using hx
  | take hxf hq => simpa [hxf, hq] using hx
  | clearTx hxf => simpa [hxf] using hx
  | store r hxf hr => simpa [hxf, hr] using hx
  | flush r hxf hr => simpa [hxf, hr] using hx
  | respond hxf => simpa [hxf] using hx
  | push hxf =>
    simp_all
    omega
  | release hxf => simpa [hxf] using hx

end OwnedStep

end Pipe

end Vcass.BlockIo.Bcknd
