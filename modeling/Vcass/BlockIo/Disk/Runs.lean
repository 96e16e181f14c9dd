import Vcass.BlockIo.Disk.Thread
import Vcass.BlockIo.Disk.Handler
import Vcass.BlockIo.Disk.Fetcher

/-!
# Block I/O frontend: the invariant of the system

`Inv` joins the invariant of the shared state with the safety of what each of the three threads still
has to do. A step of one thread is a step of its safe program, and the safety of the other two
programs survives it because the step stays within what they rely on. So `Inv` holds in every
state a run can reach.
-/

namespace Vcass.BlockIo.Disk

open Conc RingCounter

variable {s s' : Shared}

/-! ## The three threads -/

/-- The request thread is idle, or at a safe program for request `r`. -/
def ThreadOk : Option (ℕ × FProg (Option ℕ)) → Shared → Prop
  | none, s => Quiet s ∧ s.cur = none
  | some (r, p), s => (∀ x, s.cur = some x → x = r) ∧ ThreadSafe Served p s

def HandlerOk : Option (FProg Unit) → Shared → Prop
  | none, s => Rested s
  | some p, s => HandlerSafe (fun _ s ↦ Rested s) p s

/-- The counter value `cnt` stands for the end of the `n`-th part. -/
def AtPart (parts : List Part) (n cnt : ℕ) : Prop :=
  n ≤ parts.length ∧ cnt = count vcablkQueueRequestsNums (stream (parts.take n)).length

/-- The backend has got the first `n` parts. -/
def Got (parts : List Part) (fetched : List (List VcablkRequest)) (n : ℕ) : Prop :=
  n ≤ parts.length ∧ fetched = (parts.take n).map Part.entries

/-- The snapshot in the loop stands for the end of part number `target`, which is still ahead. -/
def FetcherOk (fetched : List (List VcablkRequest)) (target : ℕ) : Fetcher → Shared → Prop
  | .waiting lastUsed, s => Got s.parts fetched s.taken ∧ AtPart s.parts s.taken lastUsed
  | .inner snapshot lastUsed, s => Got s.parts fetched s.taken ∧ AtPart s.parts s.taken lastUsed ∧
      s.taken ≤ target ∧ AtPart s.parts target snapshot
  | .fetching snapshot p, s => ∃ n, n ≤ s.taken ∧ Got s.parts fetched n ∧ n < target ∧
      AtPart s.parts target snapshot ∧ FetcherSafe (Taken n) p s

theorem ThreadOk.stable {t : Option (ℕ × FProg (Option ℕ))} (h : ThreadOk t s)
    (hs : ThreadRely s s') : ThreadOk t s' := by
  cases t with
  | none => exact ⟨h.1.stable hs, hs.cur.trans h.2⟩
  | some rp => exact ⟨fun x hx ↦ h.1 x (hs.cur.symm.trans hx), h.2.stable ThreadRely.isRely hs⟩

theorem HandlerOk.stable {t : Option (FProg Unit)} (h : HandlerOk t s) (hI : Good s)
    (hs : HandlerRely s s') : HandlerOk t s' := by
  cases t with
  | none => exact Rested.stable h hI hs
  | some p => exact Prog.Safe.stable HandlerRely.isRely h hs

theorem AtPart.stable {parts parts' : List Part} {n cnt : ℕ} (h : AtPart parts n cnt)
    (hs : parts <+: parts') : AtPart parts' n cnt :=
  ⟨h.1.trans hs.length_le, by rw [take_of_isPrefix hs h.1]; exact h.2⟩

theorem Got.stable {parts parts' : List Part} {fetched : List (List VcablkRequest)} {n : ℕ}
    (h : Got parts fetched n) (hs : parts <+: parts') : Got parts' fetched n :=
  ⟨h.1.trans hs.length_le, by rw [take_of_isPrefix hs h.1]; exact h.2⟩

theorem FetcherOk.stable {fetched : List (List VcablkRequest)} {target : ℕ} {t : Fetcher}
    (h : FetcherOk fetched target t s) (hs : FetcherRely s s') :
    FetcherOk fetched target t s' := by
  cases t with
  | waiting lastUsed =>
    rw [FetcherOk, hs.taken]
    exact ⟨h.1.stable hs.parts, h.2.stable hs.parts⟩
  | inner snapshot lastUsed =>
    obtain ⟨hgot, hat, hle, hsnap⟩ := h
    rw [FetcherOk, hs.taken]
    exact ⟨hgot.stable hs.parts, hat.stable hs.parts, hle, hsnap.stable hs.parts⟩
  | fetching snapshot p =>
    obtain ⟨n, hn, hgot, hlt, hsnap, hsafe⟩ := h
    exact ⟨n, hs.taken ▸ hn, hgot.stable hs.parts, hlt, hsnap.stable hs.parts,
      hsafe.stable FetcherRely.isRely hs⟩

/-! ## The invariant -/

structure Inv (s : Sys) : Prop where
  good : Good s.shared
  explained : Explained s.shared
  thread : ThreadOk s.thread s.shared
  handler : HandlerOk s.handler s.shared
  fetcher : FetcherOk s.fetched s.target s.fetcher s.shared

/-- No operation changes the request the thread is at, except for finishing it, or gives back a part
to the ring. -/
theorem sem_frame {o : Op} {c : ℤ} {res : Res o} (h : sem s o c = some (res, s')) :
    (s'.cur = s.cur ∨ s'.cur = none) ∧ s.taken ≤ s'.taken := by
  cases o
  case putEntry slot x type bvec =>
    simp only [sem, putEntry] at h
    repeat' split at h
    all_goals
      obtain ⟨-, rfl⟩ := Prod.mk.inj (Option.some_inj.mp h)
      exact ⟨.inl rfl, le_rfl⟩
  case requestStart r =>
    simp only [sem] at h
    split at h
    all_goals
      obtain ⟨-, rfl⟩ := Prod.mk.inj (Option.some_inj.mp h)
    · exact ⟨.inl rfl, le_rfl⟩
    · refine ⟨?_, le_rfl⟩
      rw [Shared.publish_cur]
      split
      · exact .inr rfl
      · exact .inl rfl
  case setLastUsed cnt =>
    obtain ⟨-, rfl⟩ := Prod.mk.inj (Option.some_inj.mp h)
    exact ⟨.inl rfl, Nat.le_succ _⟩
  all_goals
    simp only [sem] at h
    repeat' split at h
    all_goals first
      | contradiction
      | obtain ⟨-, rfl⟩ := Prod.mk.inj (Option.some_inj.mp h)
        exact ⟨.inl rfl, le_rfl⟩

theorem advance_safe {α : Type} {I : Shared → Prop} {R G : Shared → Shared → Prop}
    {Q : α → Shared → Prop} {p p' : FProg α} {c : ℤ} (hR : Prog.IsRely R)
    (h : Prog.Safe sem I R G Q p s) (hI : I s) (ha : advance s p c = some (s', p')) :
    I s' ∧ G s s' ∧ Prog.Safe sem I R G Q p' s' ∧ (s'.cur = s.cur ∨ s'.cur = none) ∧
      s.taken ≤ s'.taken := by
  cases p with
  | ret a => simp [advance] at ha
  | act o k =>
    rw [advance, Option.map_eq_some_iff] at ha
    obtain ⟨⟨res, s''⟩, hsem, heq⟩ := ha
    obtain ⟨rfl, rfl⟩ := Prod.mk.inj heq
    obtain ⟨hI', hG, hsafe⟩ := h.step hR hI hsem
    exact ⟨hI', hG, hsafe, sem_frame hsem⟩

/-- A step of the request thread leaves the other two safe; likewise below. -/
theorem Inv.thread_step {s : Sys} {t : Shared} {p : Option (ℕ × FProg (Option ℕ))} (h : Inv s)
    (hgood : Good t) (hguar : ThreadGuar s.shared t) (hthread : ThreadOk p t) :
    Inv { s with shared := t, thread := p } :=
  ⟨hgood, h.explained.stable h.good hguar.1, hthread, h.handler.stable h.good hguar.1,
    h.fetcher.stable hguar.2⟩

theorem Inv.handler_step {s : Sys} {t : Shared} {p : Option (FProg Unit)} (h : Inv s)
    (hinv : HandlerInv t) (hguar : HandlerGuar s.shared t) (hhandler : HandlerOk p t) :
    Inv { s with shared := t, handler := p } :=
  ⟨hinv.1, hinv.2, h.thread.stable hguar.1, hhandler, h.fetcher.stable hguar.2⟩

theorem Inv.fetcher_step {s : Sys} {t : Shared} {p : Fetcher} {fetched : List (List VcablkRequest)}
    {target : ℕ} (h : Inv s) (hgood : Good t) (hguar : FetcherGuar s.shared t)
    (hfetcher : FetcherOk fetched target p t) :
    Inv { s with shared := t, fetcher := p, fetched := fetched, target := target } :=
  ⟨hgood, h.explained.stable h.good hguar.2, h.thread.stable hguar.1,
    h.handler.stable h.good hguar.2, hfetcher⟩

variable {mq : Bool}

/-! ### The request thread -/

theorem Inv.dequeue {s s' : Sys} (h : Inv s) (hstep : step mq s .dequeue = some s') : Inv s' := by
  simp only [step] at hstep
  split at hstep
  · simp at hstep
  case isFalse hidle =>
    rw [not_or, Bool.not_eq_true, Option.isSome_eq_false_iff, Option.isNone_iff_eq_none] at hidle
    obtain ⟨hnone, hne⟩ := hidle
    have hthread := h.thread
    rw [hnone] at hthread
    obtain ⟨hquiet, hcur⟩ := hthread
    obtain ⟨hhead, hgood, hguar⟩ := h.good.dequeue hcur hne
    split at hstep
    · simp at hstep
    case h_2 req hget =>
      rw [Option.some_inj] at hstep
      subst hstep
      refine h.thread_step hgood hguar ⟨fun x hx ↦ (Option.some_inj.mp hx).symm,
        vcablkDiskAsyncRequest_safe ?_⟩
      have hserved : ∀ p ∈ s.shared.parts, p.req ≠ s.shared.reqRing.ring s.shared.reqRing.tail :=
        h.good.queue.unserved _ (List.mem_of_mem_head? hhead)
      refine ⟨hquiet.hand, rfl, hget, ?_, fun p hp hpr ↦ absurd hpr (hserved p hp), hquiet.pend⟩
      have hnil : partsOf (s.shared.reqRing.ring s.shared.reqRing.tail) s.shared.parts = [] := by
        refine List.filter_eq_nil_iff.mpr fun p hp ↦ ?_
        simpa using hserved p hp
      show Cut req (partsOf _ s.shared.parts) []
      rw [hnil]
      exact .nil

theorem Inv.thread_op {s s' : Sys} {c : ℤ} (h : Inv s) (hstep : step mq s (.thread c) = some s') :
    Inv s' := by
  simp only [step] at hstep
  have hthread := h.thread
  split at hstep
  · simp at hstep
  case h_2 r heq =>
    rw [heq] at hthread
    obtain ⟨hcur, hsafe⟩ := hthread
    have hserved := hsafe.result ThreadRely.isRely h.good
    rw [Option.some_inj] at hstep
    subst hstep
    obtain ⟨hgood, hguar⟩ := h.good.clearCur hserved.cur
    exact h.thread_step hgood hguar ⟨⟨hserved.quiet.hand, hserved.quiet.pend⟩, rfl⟩
  case h_3 r previous heq =>
    rw [heq] at hthread
    obtain ⟨hcur, hsafe⟩ := hthread
    have hserved := hsafe.result ThreadRely.isRely h.good
    rw [Option.some_inj] at hstep
    subst hstep
    refine h.thread_step h.good ⟨HandlerRely.isRely.refl _, FetcherRely.isRely.refl _⟩ ⟨hcur, ?_⟩
    exact vcablkDiskRequestEndLoop_safe hserved.quiet (hserved.rough (by simp))
  case h_4 r p _ _ heq =>
    rw [heq] at hthread
    obtain ⟨hcur, hsafe⟩ := hthread
    rw [Option.map_eq_some_iff] at hstep
    obtain ⟨⟨t, p'⟩, ha, rfl⟩ := hstep
    obtain ⟨hgood, hguar, hsafe', hcur', -⟩ := advance_safe ThreadRely.isRely hsafe h.good ha
    refine h.thread_step hgood hguar ⟨fun x hx ↦ ?_, hsafe'⟩
    rcases hcur' with hsame | hnone
    · exact hcur x (hsame.symm.trans hx)
    · exact absurd (hnone.symm.trans hx) (by simp)

/-! ### The completion handler -/

theorem Inv.answer {s s' : Sys} {k ret : ℕ} (h : Inv s)
    (hstep : step mq s (.answer k ret) = some s') : Inv s' := by
  simp only [step] at hstep
  split at hstep
  case h_1 p hidle hp =>
    split at hstep
    case isTrue hk =>
      rw [Option.some_inj] at hstep
      subst hstep
      have hrested := h.handler
      rw [hidle] at hrested
      obtain ⟨hgood, hT, hF⟩ := h.good.answer hrested.ctx hrested.req hk.1 hk.2 hp
      refine ⟨hgood, fun e he ↦ ?_, h.thread.stable hT, ?_, h.fetcher.stable hF⟩
      · obtain ⟨pre, j, st, post, q, has, hrest⟩ := h.explained e he
        refine ⟨pre, j, st, post ++ [(k, ret)], q, ?_, hrest⟩
        rw [Shared.answer_arrivals, has, List.append_assoc, List.cons_append]
      · exact vcablkDiskRequestDone_safe ⟨hp, rfl, h.good.arrivals_lt,
          hrested.split.symm, rfl, rfl, rfl⟩ (h.good.parts.req k hk.1 p hp)
    case isFalse => simp at hstep
  case h_2 => simp at hstep

theorem Inv.handler_op {s s' : Sys} {c : ℤ} (h : Inv s)
    (hstep : step mq s (.handler c) = some s') : Inv s' := by
  simp only [step] at hstep
  have hhandler := h.handler
  split at hstep
  · simp at hstep
  case h_2 a heq =>
    rw [heq, HandlerOk] at hhandler
    have hrested := hhandler.result HandlerRely.isRely ⟨h.good, h.explained⟩
    rw [Option.some_inj] at hstep
    subst hstep
    obtain ⟨hgood, hguar⟩ := h.good.clearHandling hrested.req
    exact h.handler_step ⟨hgood, h.explained⟩ hguar ⟨hrested.ctx, hrested.req, hrested.split⟩
  case h_3 p _ heq =>
    rw [heq, HandlerOk] at hhandler
    rw [Option.map_eq_some_iff] at hstep
    obtain ⟨⟨t, p'⟩, ha, rfl⟩ := hstep
    obtain ⟨hinv, hguar, hsafe, -⟩ :=
      advance_safe HandlerRely.isRely hhandler ⟨h.good, h.explained⟩ ha
    exact h.handler_step hinv hguar hsafe

/-! ### The backend's request thread -/

theorem AtPart.eq_iff {n m cnt cnt' : ℕ} (h : AtPart s.parts n cnt) (h' : AtPart s.parts m cnt')
    (hI : Good s) (hn : s.taken = n) (hnm : n ≤ m) : cnt' = cnt ↔ n = m := by
  have hroom := hI.ring.room
  rw [hn] at hroom
  have hmono : (stream (s.parts.take n)).length ≤ (stream (s.parts.take m)).length := by
    have := stream_take_le (s.parts.take m) n
    rwa [List.take_take, min_eq_left hnm] at this
  have hle := stream_take_le s.parts m
  rw [h.2, h'.2, eq_comm, count_eq_count (by decide) hmono (by omega)]
  refine ⟨fun hlen ↦ ?_, fun heq ↦ by rw [heq]⟩
  -- every part between the two has an entry
  by_contra hne
  have hlt : n < s.parts.length := by
    have := h'.1
    omega
  have hp : s.parts[n]? = some s.parts[n] := List.getElem?_eq_getElem hlt
  have hpos := List.length_pos_iff.mpr (hI.parts.entries _ (List.mem_of_getElem? hp)).1
  have hsucc : (stream (s.parts.take (n + 1))).length ≤ (stream (s.parts.take m)).length := by
    have := stream_take_le (s.parts.take m) (n + 1)
    rwa [List.take_take, min_eq_left (by omega)] at this
  rw [stream_take_succ hp, List.length_append] at hsucc
  omega

theorem Good.atPart_lastUsed (h : Good s) : AtPart s.parts s.taken s.ring.lastUsed :=
  ⟨h.ring.taken_le, h.ring.lastUsed⟩

theorem Good.atPart_lastAdd (h : Good s) : AtPart s.parts s.parts.length s.ring.lastAdd :=
  ⟨le_rfl, by rw [List.take_length]; exact h.ring.lastAdd⟩

theorem Got.succ {parts : List Part} {fetched : List (List VcablkRequest)} {n : ℕ} {p : Part}
    (h : Got parts fetched n) (hp : parts[n]? = some p) :
    Got parts (fetched ++ [p.entries]) (n + 1) := by
  refine ⟨(List.getElem?_eq_some_iff.mp hp).1, ?_⟩
  rw [List.take_add_one, hp, List.map_append, ← h.2]
  rfl

theorem Inv.fetch {s s' : Sys} {c : ℤ} (h : Inv s) (hstep : step mq s (.fetch c) = some s') :
    Inv s' := by
  simp only [step] at hstep
  have hfetcher := h.fetcher
  have hrefl : FetcherGuar s.shared s.shared := ⟨ThreadRely.isRely.refl _, HandlerRely.isRely.refl _⟩
  split at hstep
  case h_1 lastUsed heq =>
    rw [heq] at hfetcher
    obtain ⟨hgot, hat⟩ := hfetcher
    split at hstep
    · simp at hstep
    · rw [Option.some_inj] at hstep
      subst hstep
      exact h.fetcher_step h.good hrefl
        ⟨hgot, hat, hgot.1, h.good.atPart_lastAdd⟩
  case h_2 snapshot lastUsed heq =>
    rw [heq] at hfetcher
    obtain ⟨hgot, hat, hle, hsnap⟩ := hfetcher
    split at hstep
    · rw [Option.some_inj] at hstep
      subst hstep
      exact h.fetcher_step h.good hrefl ⟨hgot, hat⟩
    case isFalse hne =>
      rw [Option.some_inj] at hstep
      subst hstep
      have hlt : s.shared.taken < s.target := by
        refine lt_of_le_of_ne hle fun heq' ↦ hne ?_
        exact (hat.eq_iff hsnap h.good rfl hle).mpr heq'
      have hlastUsed : lastUsed = s.shared.ring.lastUsed := hat.2.trans h.good.ring.lastUsed.symm
      refine h.fetcher_step h.good hrefl ⟨s.shared.taken, le_rfl, hgot, hlt, hsnap, ?_⟩
      rw [hlastUsed]
      exact vcablkBckndDiskGetNextRequest_safe rfl (hlt.trans_le hsnap.1) h.good
  case h_3 snapshot g lastUsed heq =>
    rw [heq] at hfetcher
    obtain ⟨n, hn, hgot, hlt, hsnap, hsafe⟩ := hfetcher
    obtain ⟨htaken, ⟨p, hp, hg⟩, hlastUsed⟩ := hsafe.result FetcherRely.isRely h.good
    rw [Option.some_inj] at hstep
    subst hstep
    dsimp only at hg hlastUsed
    have hne : g ≠ [] := hg ▸ (h.good.parts.entries p (List.mem_of_getElem? hp)).1
    rw [if_neg hne]
    refine h.fetcher_step h.good hrefl ⟨?_, ?_, ?_, hsnap⟩
    · rw [htaken, hg]
      exact hgot.succ hp
    · rw [hlastUsed]
      exact h.good.atPart_lastUsed
    · rw [htaken]
      exact hlt
  case h_4 snapshot p _ heq =>
    rw [heq] at hfetcher
    obtain ⟨n, hn, hgot, hlt, hsnap, hsafe⟩ := hfetcher
    rw [Option.map_eq_some_iff] at hstep
    obtain ⟨⟨t, p'⟩, ha, rfl⟩ := hstep
    obtain ⟨hgood, hguar, hsafe', -, htaken⟩ := advance_safe FetcherRely.isRely hsafe h.good ha
    refine h.fetcher_step hgood hguar ⟨n, hn.trans htaken, ?_, hlt, ?_, hsafe'⟩
    · exact hgot.stable hguar.2.parts
    · exact hsnap.stable hguar.2.parts

/-! ### Runs -/

theorem Inv.step {s s' : Sys} {l : Label} (h : Inv s) (hstep : step mq s l = some s') : Inv s' := by
  cases l with
  | requestFn req =>
    rw [Disk.step, Option.some_inj] at hstep
    subst hstep
    obtain ⟨hgood, hT, hH, hF⟩ : Good (vcablkDiskRequestFn mq s.shared req) ∧ _ := h.good.requestFn
    exact ⟨hgood, h.explained.stable h.good hH, h.thread.stable hT, h.handler.stable h.good hH,
      h.fetcher.stable hF⟩
  | dequeue => exact h.dequeue hstep
  | thread c => exact h.thread_op hstep
  | answer k ret => exact h.answer hstep
  | handler c => exact h.handler_op hstep
  | fetch c => exact h.fetch hstep

theorem good_init : Good init.shared where
  ring := ⟨rfl, rfl, rfl, Nat.zero_le _, fun i e _ he ↦ absurd he (by simp [init]), Nat.zero_le _⟩
  queue := ⟨by decide, by decide, rfl, fun i r hi ↦ absurd hi (by simp [init]), by simp [init],
    List.nodup_nil, by simp [init]⟩
  parts := by
    refine ⟨by simp [init], fun k _ hk ↦ absurd hk (by simp [init]), .refl _, ?_, by simp [init],
      by simp [init], by simp [init], by simp [init]⟩
    have hpool : vcablkPoolInit vcablkBioCtxPoolSize = some init.shared.pool := rfl
    obtain ⟨hholds, hnum⟩ := vcablkPoolInit_holds hpool
    exact ⟨List.range (vcablkBioCtxPoolSize + 1), hholds, hnum, fun c ↦ by simp [init, ctxs]⟩
  laid p hp := absurd hp (by simp [init])
  kept _ r := by simp [init, places, closed]

theorem inv_init : Inv init :=
  ⟨good_init, fun e he ↦ absurd he (by simp [init, answered]), ⟨⟨rfl, rfl⟩, rfl⟩, ⟨rfl, rfl, rfl⟩,
    ⟨Nat.zero_le _, rfl⟩, Nat.zero_le _, rfl⟩

/-- **The invariant holds in every reachable state.** -/
theorem exec_inv {s : Sys} {ls : List Label} (h : exec (Disk.step mq) init ls = some s) : Inv s := by
  refine exec_invariant (P := fun _ _ _ ↦ True) (fun hs _ hstep ↦ hs.step hstep)
    (along_of_forall fun _ _ _ ↦ trivial) inv_init h

end Vcass.BlockIo.Disk
