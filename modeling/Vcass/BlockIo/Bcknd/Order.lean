import Vcass.BlockIo.Bcknd.Trace

/-!
# Block I/O backend: the order of the pipeline

What every run keeps about the buffers between submission and completion:

* `Seen` — the copies of a buffer's parameters that the callback and the transfer thread work on are
  current, and a buffer behind the callback has given up its window;
* `Ordered` — the pipeline holds the groups in the order they were received, and the chunk that
  carries the cookie of a group is the last of that group;
* `Cookies` — a chunk that sends a response sends the cookie of its own group.

The proofs rest on three lemmas that say once what a step does to the pipeline: `Step.keeps` (to the
buffers in it), `Step.flight_cases` (which buffers enter and leave) and `Step.group_cases` (to the
current group).
-/

namespace Vcass.BlockIo.Bcknd

/-! ## What the callback and the transfer thread know -/

/-- The callback's copy of the parameters is current, and it releases the window they name. -/
def CbSt.Sees (k : Core) : CbSt → Prop
  | idle => True
  | unmap b p w => k.param b = p ∧ p.remapped = some w
  | clear b p => k.param b = p
  | holding b => (k.param b).remapped = none

/-- The transfer thread's copy of the parameters is current, and says why it is where it is. -/
def XfSt.Sees (k : Core) : XfSt → Prop
  | took b p => k.param b = p
  | toStore b p => k.param b = p ∧ p.isWrite = true
  | toSync b p => k.param b = p ∧ 0 ≤ p.responseCookie ∧ p.doFlush = true
  | toRespond b p _ => k.param b = p ∧ 0 ≤ p.responseCookie
  | _ => True

theorem CbSt.Sees.congr {k k' : Core} {x : CbSt} (h : x.Sees k)
    (hparam : ∀ b ∈ x.hand, k'.param b = k.param b) : x.Sees k' := by
  cases x <;> simp_all [Sees]

theorem XfSt.Sees.congr {k k' : Core} {x : XfSt} (h : x.Sees k)
    (hparam : ∀ b ∈ x.hand, k'.param b = k.param b) : x.Sees k' := by
  cases x <;> simp_all [Sees]

theorem CbSt.sees_start (k : Core) (b : ℕ) : (CbSt.start b (k.param b)).Sees k := by
  rw [start]
  split
  case h_1 w hw => exact ⟨rfl, hw⟩
  case h_2 hw => exact hw

theorem XfSt.sees_stored {k : Core} {b : ℕ} {p : CallbackParam} (h : k.param b = p) (err : ℤ) :
    (XfSt.stored b p err).Sees k := by
  rw [stored]
  split
  case isTrue hck =>
    split
    case isTrue hfl => exact ⟨h, hck, hfl.2⟩
    case isFalse => exact ⟨h, hck⟩
  case isFalse => trivial

theorem XfSt.sees_begun {k : Core} {b : ℕ} {p : CallbackParam} (h : k.param b = p) :
    (XfSt.begun b p).Sees k := by
  rw [begun]
  split
  case isTrue hw => exact ⟨h, hw⟩
  case isFalse => exact sees_stored h 0

namespace Pipe

variable {a a' : Pipe}

/-- The callback and the transfer thread see the current parameters of their buffers, and the
buffers behind the callback have given up their windows. -/
structure Seen (a : Pipe) : Prop where
  cb : a.cb.Sees a.core
  xf : a.xf.Sees a.core
  released : ∀ b ∈ a.xf.hand ++ a.queue, (a.core.param b).remapped = none

/-- The parameters of a buffer outside the pipeline do not matter. -/
theorem Seen.frame (h : Seen a) (hcb : a'.cb = a.cb) (hxf : a'.xf = a.xf)
    (hqueue : a'.queue = a.queue) (hparam : ∀ b ∈ a.flight, a'.core.param b = a.core.param b) :
    Seen a' := by
  refine ⟨hcb ▸ h.cb.congr fun b hb ↦ hparam b ?_, hxf ▸ h.xf.congr fun b hb ↦ hparam b ?_,
    fun b hb ↦ ?_⟩
  · simp [flight, hb]
  · simp [flight, hb]
  · rw [hxf, hqueue] at hb
    rw [hparam b (by rw [flight]; simp only [List.mem_append] at hb ⊢; tauto)]
    exact h.released b hb

theorem Seen.step (h : Seen a) (hown : a.Owned) (hs : Step a a') : Seen a' := by
  cases hs with
  | fetch g hidle => exact h.frame rfl rfl rfl fun _ _ ↦ rfl
  | finish hdone => exact h.frame rfl rfl rfl fun _ _ ↦ rfl
  | leadSync r hreq hr => exact h.frame rfl rfl rfl fun _ _ ↦ rfl
  | remapFail hreq => exact h.frame rfl rfl rfl fun _ _ ↦ rfl
  | remap hreq => exact h.frame rfl rfl rfl fun _ _ ↦ rfl
  | pop hreq hfree => exact h.frame rfl rfl rfl fun _ _ ↦ rfl
  | @fill cookie w b c cs es hreq =>
    have hout : b ∉ a.flight := hown.notMem_flight_of_hand (by simp [hreq])
    refine h.frame rfl rfl rfl fun x hx ↦ Function.update_of_ne ?_ _ _
    rintro rfl
    exact hout hx
  | load r hreq hr => exact h.frame rfl rfl rfl fun _ _ ↦ rfl
  | submit ck hreq => exact h.frame rfl rfl rfl fun _ _ ↦ rfl
  | abortUnmap hreq => exact h.frame rfl rfl rfl fun _ _ ↦ rfl
  | abortRespond hreq => exact h.frame rfl rfl rfl fun _ _ ↦ rfl
  | move hd => exact h.frame rfl rfl rfl fun _ _ ↦ rfl
  | @cbStart b rest hcb hd => exact ⟨CbSt.sees_start a.core b, h.xf, h.released⟩
  | cbUnmap hcb =>
    have hcb' := h.cb
    rw [hcb] at hcb'
    exact ⟨hcb'.1, h.xf.congr fun _ _ ↦ rfl, h.released⟩
  | @cbClear b p hcb =>
    -- The callback's buffer is not the transfer thread's and not in the ring.
    have hnd := hown.nodup_flight
    have hne : ∀ x ∈ a.xf.hand ++ a.queue, x ≠ b := by
      rintro x hx rfl
      rw [flight, hcb] at hnd
      simp only [CbSt.hand_clear, List.append_assoc] at hnd
      rw [← List.append_assoc] at hnd
      exact (List.nodup_append.mp hnd).2.2 x hx x (by simp) rfl
    have hparam : ∀ x ∈ a.xf.hand ++ a.queue,
        (a.core.setParam b { p with remapped := none }).param x = a.core.param x :=
      fun x hx ↦ Function.update_of_ne (hne x hx) _ _
    refine ⟨?_, h.xf.congr fun x hx ↦ hparam x (List.mem_append_left _ hx), fun x hx ↦ ?_⟩
    · simp [CbSt.Sees]
    · rw [hparam x hx]
      exact h.released x hx
  | @enqueue b hcb =>
    have hcb' := h.cb
    rw [hcb] at hcb'
    refine ⟨trivial, h.xf, fun x hx ↦ ?_⟩
    rw [← List.append_assoc, List.mem_append, List.mem_singleton] at hx
    rcases hx with hx | rfl
    · exact h.released x hx
    · exact hcb'
  | @take b rest hxf hq =>
    refine ⟨h.cb, rfl, fun x hx ↦ h.released x ?_⟩
    simpa [hxf, hq] using hx
  | @clearTx b p hxf =>
    have hxf' := h.xf
    rw [hxf] at hxf'
    refine ⟨h.cb.congr fun _ _ ↦ rfl, XfSt.sees_begun hxf', fun x hx ↦ h.released x ?_⟩
    simpa [hxf] using hx
  | @store b p r hxf hr =>
    have hxf' := h.xf
    rw [hxf] at hxf'
    refine ⟨h.cb.congr fun _ _ ↦ rfl, XfSt.sees_stored hxf'.1 r, fun x hx ↦ h.released x ?_⟩
    simpa [hxf] using hx
  | @flush b p r hxf hr =>
    have hxf' := h.xf
    rw [hxf] at hxf'
    refine ⟨h.cb.congr fun _ _ ↦ rfl, ⟨hxf'.1, hxf'.2.1⟩, fun x hx ↦ h.released x ?_⟩
    simpa [hxf] using hx
  | @respond b p err hxf =>
    refine ⟨h.cb.congr fun _ _ ↦ rfl, trivial, fun x hx ↦ h.released x ?_⟩
    simpa [hxf] using hx
  | push hxf =>
    refine ⟨h.cb.congr fun _ _ ↦ rfl, trivial, fun x hx ↦ h.released x ?_⟩
    simpa [hxf] using List.mem_cons_of_mem _ hx
  | release hxf =>
    refine ⟨h.cb, trivial, fun x hx ↦ h.released x ?_⟩
    simpa [hxf] using hx

end Pipe

/-! ## What a step does to the pipeline -/

/-- The parameters of a chunk without its window, which the callback takes away. -/
def CallbackParam.item (p : CallbackParam) : CallbackParam := { p with remapped := none }

/-- The request thread has finished the current group, or has not received one. -/
def ReqSt.closed : ReqSt → Prop
  | idle => True
  | done => True
  | _ => False

namespace Pipe

variable {a a' : Pipe}

theorem Step.keeps (hs : Step a a') (hown : a.Owned) (hseen : Seen a) {b : ℕ}
    (hb : b ∈ a.flight) :
    a'.core.group b = a.core.group b ∧ (a'.core.param b).item = (a.core.param b).item := by
  cases hs with
  | @pop cookie w c cs es x x' free hq hfree =>
    have hout : x ∉ a.flight := hown.notMem_flight_of_free (by simp [hfree])
    have hne : b ≠ x := fun h ↦ hout (h ▸ hb)
    exact ⟨Function.update_of_ne hne _ _, rfl⟩
  | @fill cookie w x c cs es hq =>
    have hout : x ∉ a.flight := hown.notMem_flight_of_hand (by simp [hq])
    have hne : b ≠ x := fun h ↦ hout (h ▸ hb)
    refine ⟨rfl, ?_⟩
    rw [Core.setParam_param, Function.update_of_ne hne]
  | @cbClear x p hcb =>
    have hcb' := hseen.cb
    rw [hcb] at hcb'
    refine ⟨rfl, ?_⟩
    by_cases hbx : b = x
    · rw [hbx, Core.setParam_param, Function.update_self, show a.core.param x = p from hcb']
      rfl
    · rw [Core.setParam_param, Function.update_of_ne hbx]
  | _ => exact ⟨rfl, rfl⟩

section Flight

attribute [local simp] submitted returned Event.submitted Event.returned flight

theorem Step.flight_cases (hs : Step a a') :
    (a'.flight = a.flight ∧ ∀ gid, submitted gid a'.core.log = submitted gid a.core.log ∧
        returned gid a'.core.log = returned gid a.core.log) ∨
      (∃ b, a.xf = .toPush b ∧ a.flight = b :: a'.flight ∧ a' = { a with
        core := a.core.emit (.push (a.core.group b) b)
        free := a.free ++ [b]
        xf := .pushed b }) ∨
      ∃ cookie w b c cs es ck, a.req = .toSubmit cookie w b c cs es ∧ 0 ≤ ck ∧
        a'.flight = a.flight ++ [b] ∧ a' = { a with
          core := a.core.submit (c.desc w b) ck
          req := .proceed cookie w cs es } := by
  cases hs with
  | @submit cookie w b c cs es ck hq =>
    by_cases hck : ck < 0
    · exact .inl (by simp [hck])
    · refine .inr (.inr ⟨cookie, w, b, c, cs, es, ck, hq, not_lt.mp hck, ?_, ?_⟩)
      · simp [if_neg hck, Chunk.desc]
      · rw [if_neg hck]
  | @push b hxf => exact .inr (.inl ⟨b, hxf, by simp [hxf], rfl⟩)
  | move hd => exact .inl (by simp [hd])
  | cbStart hcb hd => exact .inl (by simp [hcb, hd])
  | cbUnmap hcb => exact .inl (by simp [hcb])
  | cbClear hcb => exact .inl (by simp [hcb])
  | enqueue hcb => exact .inl (by simp [hcb])
  | take hxf hq => exact .inl (by simp [hxf, hq])
  | clearTx hxf => exact .inl (by simp [hxf])
  | store r hxf hr => exact .inl (by simp [hxf])
  | flush r hxf hr => exact .inl (by simp [hxf])
  | respond hxf => exact .inl (by simp [hxf])
  | release hxf => exact .inl (by simp [hxf])
  | _ => exact .inl (by simp)

end Flight

/-- A new group is the only way to another current group and out of the idle state, and an
unfinished group stays unfinished until the request thread is done with it. -/
theorem Step.group_cases (hs : Step a a') :
    (∃ g, a.req = .idle ∧ a' = { a with core := a.core.fetch g, req := .start g }) ∨
      (a'.core.groups = a.core.groups ∧ (a.req.closed → a'.req.closed) ∧
        (a.req = .idle → a'.req = .idle)) := by
  cases hs with
  | fetch g hidle => exact .inl ⟨g, hidle, rfl⟩
  | finish => exact .inr ⟨rfl, fun _ ↦ trivial, fun _ ↦ rfl⟩
  | leadSync _ hq => exact .inr ⟨rfl, by simp [hq, ReqSt.closed], by simp [hq]⟩
  | remapFail hq => exact .inr ⟨rfl, by simp [hq, ReqSt.closed], by simp [hq]⟩
  | remap hq => exact .inr ⟨rfl, by simp [hq, ReqSt.closed], by simp [hq]⟩
  | pop hq => exact .inr ⟨rfl, by simp [hq, ReqSt.closed], by simp [hq]⟩
  | fill hq => exact .inr ⟨rfl, by simp [hq, ReqSt.closed], by simp [hq]⟩
  | load _ hq => exact .inr ⟨rfl, by simp [hq, ReqSt.closed], by simp [hq]⟩
  | submit _ hq => exact .inr ⟨rfl, by simp [hq, ReqSt.closed], by simp [hq]⟩
  | abortUnmap hq => exact .inr ⟨rfl, by simp [hq, ReqSt.closed], by simp [hq]⟩
  | abortRespond hq => exact .inr ⟨rfl, by simp [hq, ReqSt.closed], by simp [hq]⟩
  | _ => exact .inr ⟨rfl, id, id⟩

theorem Step.keeps_cookie (hs : Step a a') (hown : a.Owned) (hseen : Seen a) {b : ℕ}
    (hb : b ∈ a.flight) : (a'.core.param b).responseCookie = (a.core.param b).responseCookie := by
  have hitem := congrArg CallbackParam.responseCookie (hs.keeps hown hseen hb).2
  exact hitem

end Pipe

/-! ## The order of the pipeline -/

/-- Buffer `b` is ahead of `b'` in the pipeline: its group is not later, and earlier if it carries
the last chunk. -/
def Before (k : Core) (b b' : ℕ) : Prop :=
  k.group b ≤ k.group b' ∧ (0 ≤ (k.param b).responseCookie → k.group b < k.group b')

namespace Pipe

variable {a a' : Pipe}

/-- The pipeline holds the groups one after the other, each with its last chunk at the end. -/
structure Ordered (a : Pipe) : Prop where
  pairwise : a.flight.Pairwise (Before a.core)
  lt_groups : ∀ b ∈ a.flight, a.core.group b < a.core.groups.length
  final : ∀ b ∈ a.flight, a.core.group b = a.core.cur → 0 ≤ (a.core.param b).responseCookie →
    a.req.closed

/-- While the request thread works on a group, the last chunk of that group is not in the
pipeline. -/
theorem Ordered.cookie_neg {b : ℕ} (h : Ordered a) (hreq : ¬ a.req.closed) (hb : b ∈ a.flight)
    (hcur : a.core.group b = a.core.cur) : ¬ 0 ≤ (a.core.param b).responseCookie :=
  fun hck ↦ hreq (h.final b hb hcur hck)

theorem Ordered.submit {cookie b : ℕ} {w : Window} {c : Chunk} {cs : List Chunk} {es : List Entry}
    {ck : ℤ} (h : Ordered a) (htr : Tracked a) (hq : a.req = .toSubmit cookie w b c cs es)
    (hflight : ({ a with
      core := a.core.submit (c.desc w b) ck
      req := .proceed cookie w cs es } : Pipe).flight = a.flight ++ [b]) :
    Ordered { a with core := a.core.submit (c.desc w b) ck, req := .proceed cookie w cs es } := by
  have hat := htr.req
  have hheld := htr.held
  rw [hq] at hat hheld
  have hopen : ¬ a.req.closed := by simp [hq, ReqSt.closed]
  have hle : ∀ x ∈ a.flight, a.core.group x ≤ a.core.cur := fun x hx ↦ by
    have := h.lt_groups x hx
    rw [Core.cur]
    omega
  refine ⟨?_, fun x hx ↦ ?_, fun x hx hcur hx0 ↦ ?_⟩
  · rw [hflight, List.pairwise_append]
    refine ⟨h.pairwise, List.pairwise_singleton .., fun x hx y hy ↦ ?_⟩
    rw [List.mem_singleton] at hy
    subst hy
    show a.core.group x ≤ a.core.group y ∧ (_ → a.core.group x < a.core.group y)
    rw [hheld.1]
    exact ⟨hle x hx, fun hx0 ↦
      lt_of_le_of_ne (hle x hx) fun hcur ↦ h.cookie_neg hopen hx hcur hx0⟩
  · rw [hflight, List.mem_append, List.mem_singleton] at hx
    rcases hx with hx | rfl
    · exact h.lt_groups x hx
    · show a.core.group x < a.core.groups.length
      rw [hheld.1]
      exact Within.lt_groups hat
  · rw [hflight, List.mem_append, List.mem_singleton] at hx
    rcases hx with hx | rfl
    · exact absurd hx0 (h.cookie_neg hopen hx hcur)
    · change 0 ≤ (a.core.param x).responseCookie at hx0
      rw [hheld.2] at hx0
      obtain ⟨rfl, rfl, -⟩ := Within.cookie_last hat hx0
      trivial

theorem Ordered.of_sublist (h : Ordered a) (hown : a.Owned) (hseen : Seen a) (hs : Step a a')
    (hsub : a'.flight.Sublist a.flight) : Ordered a' := by
  have hmem : ∀ b ∈ a'.flight, b ∈ a.flight := fun b hb ↦ hsub.subset hb
  have hgroup : ∀ b ∈ a'.flight, a'.core.group b = a.core.group b := fun b hb ↦
    (hs.keeps hown hseen (hmem b hb)).1
  have hcookie : ∀ b ∈ a'.flight,
      (a'.core.param b).responseCookie = (a.core.param b).responseCookie := fun b hb ↦
    hs.keeps_cookie hown hseen (hmem b hb)
  refine ⟨?_, fun b hb ↦ ?_, fun b hb hcur hck ↦ ?_⟩
  · refine (h.pairwise.sublist hsub).imp_of_mem fun {b b'} hb hb' hbb' ↦ ?_
    rw [Before, hgroup b hb, hgroup b' hb', hcookie b hb]
    exact hbb'
  · have hlt := h.lt_groups b (hmem b hb)
    rw [hgroup b hb]
    rcases hs.group_cases with ⟨g, -, rfl⟩ | ⟨hgroups, -⟩
    · rw [Core.fetch_groups, List.length_append, List.length_singleton]
      omega
    · rwa [hgroups]
  · have hlt := h.lt_groups b (hmem b hb)
    rw [hgroup b hb] at hcur
    rw [hcookie b hb] at hck
    rcases hs.group_cases with ⟨g, -, rfl⟩ | ⟨hgroups, hclosed, -⟩
    · rw [Core.fetch_cur] at hcur
      omega
    · rw [Core.cur, hgroups] at hcur
      exact hclosed (h.final b (hmem b hb) hcur hck)

theorem Ordered.step (h : Ordered a) (htr : Tracked a) (hseen : Seen a) (hown : a.Owned)
    (hs : Step a a') : Ordered a' := by
  rcases hs.flight_cases with ⟨heq, -⟩ | ⟨b, -, heq, -⟩ | ⟨_, _, _, _, _, _, _, hq, -, heq, rfl⟩
  · exact h.of_sublist hown hseen hs (heq ▸ .refl _)
  · exact h.of_sublist hown hseen hs (heq ▸ List.sublist_cons_self ..)
  · exact h.submit htr hq heq

end Pipe

/-! ## Cookies -/

/-- The cookie with which the request thread would answer. -/
def ReqSt.HasCookie (ck : ℕ) : ReqSt → Prop
  | idle => True
  | lead cookie _ => cookie = ck
  | next cookie _ _ => cookie = ck
  | inEntry cookie _ _ _ _ => cookie = ck
  | popped cookie _ _ _ _ _ => cookie = ck
  | toLoad cookie _ _ _ _ _ => cookie = ck
  | toSubmit cookie _ _ _ _ _ => cookie = ck
  | abort cookie _ _ => cookie = ck
  | done => True

theorem ReqSt.hasCookie_settle {ck cookie : ℕ} {es : List Entry} (h : cookie = ck) :
    (settle cookie es).HasCookie ck := by
  cases es
  · trivial
  · exact h

theorem ReqSt.hasCookie_proceed {ck cookie : ℕ} {w : Window} {cs : List Chunk} {es : List Entry}
    (h : cookie = ck) : (proceed cookie w cs es).HasCookie ck := by
  cases cs
  · exact hasCookie_settle h
  · exact h

theorem ReqSt.hasCookie_start (g : List VcablkRequest) : (start g).HasCookie (groupCookie g) := by
  rcases start_cases g with ⟨-, -, h⟩ | ⟨-, -, h⟩ | ⟨-, -, h⟩
  · rw [h]
    rfl
  · rw [h]
    rfl
  · rw [h]
    exact hasCookie_settle rfl

namespace Pipe

variable {a a' : Pipe}

/-- A chunk that sends a response sends the cookie of its own group. -/
structure Cookies (a : Pipe) : Prop where
  req : a.req.HasCookie (groupCookie (a.core.groups.getD a.core.cur []))
  flight : ∀ b ∈ a.flight, 0 ≤ (a.core.param b).responseCookie →
    (a.core.param b).responseCookie = groupCookie (a.core.groups.getD (a.core.group b) [])

theorem Cookies.req_step (h : Cookies a) (hs : Step a a') :
    a'.req.HasCookie (groupCookie (a'.core.groups.getD a'.core.cur [])) := by
  have hreq := h.req
  cases hs with
  | fetch g hidle => simpa using ReqSt.hasCookie_start g
  | finish hdone => trivial
  | abortRespond hq => trivial
  | leadSync r hq hr =>
    rw [hq] at hreq
    dsimp only
    split
    · exact ReqSt.hasCookie_settle hreq
    · exact hreq
  | remapFail hq =>
    rw [hq] at hreq
    exact hreq
  | remap hq =>
    rw [hq] at hreq
    exact ReqSt.hasCookie_proceed hreq
  | pop hq hfree =>
    rw [hq] at hreq
    exact hreq
  | fill hq =>
    rw [hq] at hreq
    dsimp only
    split <;> exact hreq
  | load r hq hr =>
    rw [hq] at hreq
    dsimp only
    split <;> exact hreq
  | submit ck hq =>
    rw [hq] at hreq
    dsimp only
    split
    · exact hreq
    · exact ReqSt.hasCookie_proceed hreq
  | abortUnmap hq =>
    rw [hq] at hreq
    exact hreq
  | _ => exact hreq

theorem Cookies.step (h : Cookies a) (htr : Tracked a) (hord : Ordered a) (hseen : Seen a)
    (hown : a.Owned) (hs : Step a a') : Cookies a' := by
  refine ⟨h.req_step hs, fun b hb hck ↦ ?_⟩
  by_cases hmem : b ∈ a.flight
  · have hgroup := (hs.keeps hown hseen hmem).1
    rw [hs.keeps_cookie hown hseen hmem] at hck ⊢
    rw [hgroup, h.flight b hmem hck]
    rcases hs.group_cases with ⟨g, -, rfl⟩ | ⟨hgroups, -⟩
    · rw [Core.fetch_groups, List.getD_append _ _ _ _ (hord.lt_groups b hmem)]
    · rw [hgroups]
  · rcases hs.flight_cases with ⟨heq, -⟩ | ⟨x, -, heq, -⟩ | ⟨_, _, x, _, _, _, _, hq, -, heq, rfl⟩
    · exact absurd (heq ▸ hb) hmem
    · exact absurd (heq ▸ List.mem_cons_of_mem x hb) hmem
    · have hat := htr.req
      have hheld := htr.held
      rw [hq] at hat hheld
      rw [heq, List.mem_append, List.mem_singleton] at hb
      obtain rfl : b = x := hb.resolve_left hmem
      change 0 ≤ (a.core.param b).responseCookie at hck
      show (a.core.param b).responseCookie = groupCookie (a.core.groups.getD (a.core.group b) [])
      rw [hheld.2] at hck ⊢
      rw [hheld.1]
      exact (Within.cookie_last hat hck).2.2

end Pipe

/-! ## Every run -/

namespace Pipe

variable {a a' : Pipe}

/-- The invariant of the pipeline. -/
structure Inv (a : Pipe) : Prop where
  lt_groups : a.req = .idle ∨ a.core.cur < a.core.groups.length
  owned : a.Owned
  tracked : a.Tracked
  seen : a.Seen
  ordered : a.Ordered
  cookies : a.Cookies

theorem Inv.step (h : Inv a) (hs : Step a a') : Inv a' where
  lt_groups := by
    rcases hs.group_cases with ⟨g, -, rfl⟩ | ⟨hgroups, -, hidle⟩
    · exact .inr (by simp)
    · rw [Core.cur, hgroups]
      exact h.lt_groups.imp_left hidle
  owned := h.owned.step hs
  tracked := h.tracked.step h.owned hs
  seen := h.seen.step h.owned hs
  ordered := h.ordered.step h.tracked h.seen h.owned hs
  cookies := h.cookies.step h.tracked h.ordered h.seen h.owned hs

theorem Inv.start (media mem : ℕ → UInt8) : Inv (Pipe.start media mem) where
  lt_groups := .inl rfl
  owned := (Sim.start media mem).owned
  tracked := ⟨fun gid ↦ List.nil_prefix, trivial, trivial⟩
  seen := ⟨trivial, trivial, fun b hb ↦ absurd hb (by simp [Pipe.start])⟩
  ordered := ⟨.nil, fun b hb ↦ absurd hb (by simp [Pipe.start, init, flight]),
    fun b hb ↦ absurd hb (by simp [Pipe.start, init, flight])⟩
  cookies := ⟨trivial, fun b hb ↦ absurd hb (by simp [Pipe.start, init, flight])⟩

end Pipe

end Vcass.BlockIo.Bcknd
