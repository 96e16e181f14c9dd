import Vcass.Virtio.Transport

/-!
# Where the buffers are

The buffers that were added are numbered. The invariant says where each of them is: still to be fetched, with the host,
or completed; and it ties the indices and slots of the two rings to the numbers of buffers that went through. There
are at most as many buffers out as the ring has slots, so the indices never lap each other, on sixteen bits.

While the host walks over a chain the rest of the chain is still there: nothing that the driver does touches a buffer
that is out.
-/

namespace Vcass.Virtio.Transport

open Conc RingBuffer RingCounter Virtqueue HostRing
open Function (update)

variable {τ : Type} {num n : ℕ} {dmaMap : Bool} {desc : ℕ → Desc} {cells : List ℕ} {start w w' : Walk}
  {entries : List Entry} {riov wiov : Option Kiov} {b b' : Books τ} {o : Out τ}

/-! ## A walk that is not over -/

/-- The walk has come to a descriptor of the chain in the table `desc`, and what is before it is in the vectors. -/
def OnChain (num : ℕ) (dmaMap : Bool) (desc : ℕ → Desc) (cells : List ℕ) (entries : List Entry) (start w : Walk) :
    Prop :=
  ∃ es₀ e es ids, entries = es₀ ++ e :: es ∧ Chain dmaMap desc w.i ids (e :: es) ∧ (∀ a ∈ ids, a ∈ cells) ∧
    (∀ a ∈ cells, a < w.descMax) ∧ w.count + ids.length ≤ num ∧ ¬0 < w.upNext ∧ start.Grown dmaMap w es₀ ∧
      w.Ready (e :: es)

theorem OnChain.round (h : OnChain num dmaMap desc cells entries start w) :
    (∃ w', round num (desc w.i) true w = .go w' ∧ w'.table = w.table ∧
      OnChain num dmaMap desc cells entries start w') ∨
    ∃ w', round num (desc w.i) true w = .done w' ∧ start.Grown dmaMap w' entries := by
  obtain ⟨es₀, e, es, ids, rfl, hchain, hsub, hcells, hcount, hup, hgrown, hready⟩ := h
  have hpos : 0 < ids.length := by
    rw [hchain.length_eq]
    exact Nat.succ_pos _
  have hlt : w.count < num := by omega
  cases es with
  | nil =>
    obtain ⟨-, w', hround, hlast⟩ := round_last hchain hlt hup hready
    exact Or.inr ⟨w', hround, hgrown.trans hlast⟩
  | cons e' es =>
    obtain ⟨w', ids', rfl, hround, htail, hcount', hup', htable, hmax, hmore, hready'⟩ := round_more hchain hlt
      (fun a ha ↦ hcells a (hsub a ha)) hready
    refine Or.inl ⟨w', hround, htable, es₀ ++ [e], e', es, ids', ?_, htail, ?_, ?_, ?_, hup' ▸ hup, hgrown.trans hmore,
      hready'⟩
    · rw [List.append_assoc, List.singleton_append]
    · exact fun a ha ↦ hsub a (List.mem_cons_of_mem _ ha)
    · rwa [hmax]
    · rw [hcount']
      rw [List.length_cons] at hcount
      omega

theorem OnChain.congr {desc' : ℕ → Desc} (h : OnChain num dmaMap desc cells entries start w)
    (hsame : ∀ a ∈ cells, desc' a = desc a) : OnChain num dmaMap desc' cells entries start w := by
  obtain ⟨es₀, e, es, ids, hes, hchain, hsub, hrest⟩ := h
  exact ⟨es₀, e, es, ids, hes, hchain.congr fun a ha ↦ hsame a (hsub a ha), hsub, hrest⟩

/-- The walk over the chain of a buffer, in the ring's table, at the head of an indirect table or in there. -/
def OnWay (b : Books τ) (o : Out τ) (start w : Walk) : Prop :=
  (o.table = none ∧ w.table = none ∧ OnChain b.num b.dmaMap b.desc o.ids o.entries start w) ∨
    ∃ a t, o.table = some a ∧ b.tables a = some t ∧ (w = start ∨ w.table = some a ∧
      OnChain b.num b.dmaMap t (List.range o.entries.length) o.entries start w)

theorem OnWay.congr (h : OnWay b o start w) (hparams : b'.toParams = b.toParams) (hsame : Untouched b b' o) :
    OnWay b' o start w := by
  have hnum : b'.num = b.num := congrArg Params.num hparams
  have hdma : b'.dmaMap = b.dmaMap := congrArg Params.dmaMap hparams
  rw [OnWay, hnum, hdma]
  rcases h with ⟨hnone, htable, hchain⟩ | ⟨a, t, ha, ht, hwalk⟩
  · exact Or.inl ⟨hnone, htable, hchain.congr hsame.desc_eq⟩
  · exact Or.inr ⟨a, t, ha, (hsame.tables_eq a ha).trans ht, hwalk⟩

theorem onWay_start (hchain : o.HasChain b) (hne : o.entries ≠ []) (hids : ∀ a ∈ o.ids, a < b.num)
    (hlen : o.entries.length ≤ b.num) (hgiven : Given riov wiov o.entries) :
    OnWay b o (Walk.start b.num o.head riov wiov) (Walk.start b.num o.head riov wiov) := by
  cases htable : o.table with
  | none =>
    have hdirect := hchain.direct htable
    have hlength := hdirect.length_eq
    obtain ⟨e, es, hes⟩ := List.exists_cons_of_ne_nil hne
    refine Or.inl ⟨htable, rfl, [], e, es, o.ids, hes, hes ▸ hdirect, fun _ ha ↦ ha, hids, ?_, ?_, ?_, ?_⟩
    · rw [hlength, Walk.start, Nat.zero_add]
      exact hlen
    · exact (by decide : ¬(0 : ℤ) < -1)
    · exact grown_refl _
    · exact hes ▸ hgiven.ready b.num o.head
  | some a =>
    rw [Out.HasChain, htable] at hchain
    obtain ⟨-, -, t, ht, -⟩ := hchain
    exact Or.inr ⟨a, t, htable, ht, Or.inl rfl⟩

theorem OnWay.round {vq : VringVirtqueue τ} (h : OnWay vq.toBooks o start w) (hchain : o.HasChain vq.toBooks)
    (hne : o.entries ≠ []) (hlen : o.entries.length ≤ vq.num) (hnum : vq.num ≤ 0xffff)
    (hstart : start = Walk.start vq.num o.head riov wiov) (hgiven : Given riov wiov o.entries) :
    (∃ w', round vq.num (descAt vq w.table w.i) true w = .go w' ∧ OnWay vq.toBooks o start w') ∨
      ∃ w', round vq.num (descAt vq w.table w.i) true w = .done w' ∧ start.Grown vq.dmaMap w' o.entries := by
  rcases h with ⟨hnone, htable, hon⟩ | ⟨a, t, ha, ht, rfl | ⟨htable, hon⟩⟩
  · rw [htable, descAt]
    rcases hon.round with ⟨w', hround, htable', hon'⟩ | ⟨w', hround, hgrown⟩
    · exact Or.inl ⟨w', hround, Or.inl ⟨hnone, htable'.trans htable, hon'⟩⟩
    · exact Or.inr ⟨w', hround, hgrown⟩
  · rw [Out.HasChain, ha] at hchain
    obtain ⟨-, hcontent, t', ht', hchain⟩ := hchain
    obtain rfl : t = t' := Option.some_inj.mp (ht.symm.trans ht')
    obtain ⟨e, es, hes⟩ := List.exists_cons_of_ne_nil hne
    have hready : (w.inTable a o.entries.length).Ready o.entries := by
      rw [hstart]
      exact ⟨(hgiven.ready vq.num o.head).needed, (hgiven.ready vq.num o.head).started⟩
    have hdesc : descAt vq w.table w.i = vq.desc o.head := by
      rw [hstart]
      rfl
    rw [hdesc]
    refine Or.inl ⟨w.inTable a o.entries.length, round_indirect hcontent (by omega) (by rw [hstart]; rfl),
      Or.inr ⟨a, t, ha, ht, Or.inr ⟨rfl, [], e, es, List.range o.entries.length, hes, ?_, fun _ hi ↦ hi,
        fun i hi ↦ List.mem_range.mp hi, ?_, ?_, ?_, ?_⟩⟩⟩
    · rw [← hes]
      exact hchain
    · rw [List.length_range, Walk.inTable, hstart, Walk.start, Nat.zero_add]
      exact hlen
    · exact (by decide : ¬(0 : ℤ) < -2)
    · exact grown_refl w
    · rw [← hes]
      exact hready
  · rw [htable]
    have hdesc : descAt vq (some a) w.i = t w.i := by
      rw [descAt, ht, Option.getD_some]
    rw [hdesc]
    rcases hon.round with ⟨w', hround, htable', hon'⟩ | ⟨w', hround, hgrown⟩
    · exact Or.inl ⟨w', hround, Or.inr ⟨a, t, ha, ht, Or.inr ⟨htable'.trans htable, hon'⟩⟩⟩
    · exact Or.inr ⟨w', hround, hgrown⟩

/-! ## What the calls do to the rings -/

variable {vq vq' : VringVirtqueue τ} {outSgs inSgs : List (List Sg)} {data : τ} {env : AddEnv} {r : AddResult}
  {outs : List (Out τ)}

/-- The driver's part of the rings. -/
structure SameRings (vq vq' : VringVirtqueue τ) : Prop where
  availIdx : vq'.availIdx = vq.availIdx
  availRing : vq'.availRing = vq.availRing
  lastUsedIdx : vq'.lastUsedIdx = vq.lastUsedIdx

theorem sameRings_notify (vq : VringVirtqueue τ) (notifyOk : Bool) :
    SameRings vq (vcaVirtqueueNotify vq notifyOk).2 ∧
      (notifyOk = true → (vcaVirtqueueNotify vq notifyOk).2.broken = vq.broken) := by
  rw [vcaVirtqueueNotify]
  split_ifs with hbroken hok
  · exact ⟨⟨rfl, rfl, rfl⟩, fun _ ↦ rfl⟩
  · exact ⟨⟨rfl, rfl, rfl⟩, fun _ ↦ rfl⟩
  · exact ⟨⟨rfl, rfl, rfl⟩, fun hok' ↦ absurd hok' hok⟩

theorem sameRings_kick (vq : VringVirtqueue τ) (notifyOk : Bool) (availEvent usedFlags : ℕ) :
    SameRings vq (vcaVirtqueueKick vq notifyOk availEvent usedFlags).2 ∧
      (notifyOk = true → (vcaVirtqueueKick vq notifyOk availEvent usedFlags).2.broken = vq.broken) := by
  rw [vcaVirtqueueKick]
  dsimp only
  by_cases hkick : (vcaVirtqueueKickPrepare vq availEvent usedFlags).1 = true
  · rw [if_pos hkick]
    obtain ⟨⟨havail, hring, hused⟩, hbroken⟩ :=
      sameRings_notify (vcaVirtqueueKickPrepare vq availEvent usedFlags).2 notifyOk
    exact ⟨⟨havail, hring, hused⟩, hbroken⟩
  · rw [if_neg hkick]
    exact ⟨⟨rfl, rfl, rfl⟩, fun _ ↦ rfl⟩

theorem sameRings_kickJustInCase (vq : VringVirtqueue τ) (env : AddEnv) :
    SameRings vq (kickJustInCase vq env) ∧ (env.notifyOk = true → (kickJustInCase vq env).broken = vq.broken) := by
  rw [kickJustInCase]
  split_ifs
  · exact sameRings_kick ..
  · exact ⟨⟨rfl, rfl, rfl⟩, fun _ ↦ rfl⟩

/-- What `virtqueue_add` does to the available ring. -/
structure Exposed (vq vq' : VringVirtqueue τ) : Prop where
  availIdx : vq'.availIdx = (vq.availIdx + 1) % 2 ^ 16
  availRing : vq'.availRing = update vq.availRing (vq.availIdx &&& (vq.num - 1)) vq.freeHead
  lastUsedIdx : vq'.lastUsedIdx = vq.lastUsedIdx

theorem exposed_place (table : Option (ℕ × (ℕ → Desc))) (k : ℕ) :
    let vq' := kickJustInCase
      (expose (place (reserve vq k (entriesOf outSgs inSgs)) (entriesOf outSgs inSgs) table) vq.freeHead data) env
    ((AddResult.ok = .ok → Exposed vq vq') ∧ (AddResult.ok ≠ .ok → SameRings vq vq') ∧
      (env.notifyOk = true → vq'.broken = vq.broken)) := by
  obtain ⟨hsame, hbroken⟩ := sameRings_kickJustInCase
    (expose (place (reserve vq k (entriesOf outSgs inSgs)) (entriesOf outSgs inSgs) table) vq.freeHead data) env
  have hplace : SameRings vq (place (reserve vq k (entriesOf outSgs inSgs)) (entriesOf outSgs inSgs) table) ∧
      (place (reserve vq k (entriesOf outSgs inSgs)) (entriesOf outSgs inSgs) table).num = vq.num ∧
        (place (reserve vq k (entriesOf outSgs inSgs)) (entriesOf outSgs inSgs) table).broken = vq.broken := by
    cases table <;> exact ⟨⟨rfl, rfl, rfl⟩, rfl, rfl⟩
  obtain ⟨⟨havail, hring, hused⟩, hnum, hbroken'⟩ := hplace
  refine ⟨fun _ ↦ ⟨?_, ?_, ?_⟩, fun hne ↦ absurd rfl hne, fun hok ↦ (hbroken hok).trans hbroken'⟩
  · exact hsame.availIdx.trans (congrArg (fun i ↦ (i + 1) % 2 ^ 16) havail)
  · rw [hsame.availRing, expose, hring, havail, hnum]
  · exact hsame.lastUsedIdx.trans hused

theorem addTail_rings {table : Option (ℕ × (ℕ → Desc))} {k : ℕ}
    (h : addTail vq outSgs inSgs data env table k = (r, vq')) :
    (r = .ok → Exposed vq vq') ∧ (r ≠ .ok → SameRings vq vq') ∧ (env.notifyOk = true → vq'.broken = vq.broken) := by
  rw [addTail] at h
  split_ifs at h with hspace hout hmoved
  · cases h
    exact ⟨fun hok ↦ absurd hok (by decide), fun _ ↦ ⟨rfl, rfl, rfl⟩, fun _ ↦ rfl⟩
  · cases h
    exact ⟨fun hok ↦ absurd hok (by decide), fun _ ↦ ⟨rfl, rfl, rfl⟩, fun _ ↦ rfl⟩
  · cases h
    exact ⟨fun hok ↦ absurd hok (by decide), fun _ ↦ ⟨rfl, rfl, rfl⟩, fun _ ↦ rfl⟩
  · split at h
    · cases h
      exact ⟨fun hok ↦ absurd hok (by decide), fun _ ↦ ⟨rfl, rfl, rfl⟩, fun _ ↦ rfl⟩
    · cases h
      exact exposed_place table k
  · cases h
    exact exposed_place table k

theorem addSgs_rings (h : vcaVirtqueueAddSgs vq outSgs inSgs data env = (r, vq')) :
    (r = .ok → Exposed vq vq') ∧ (r ≠ .ok → SameRings vq vq') ∧ (env.notifyOk = true → vq'.broken = vq.broken) := by
  rw [vcaVirtqueueAddSgs, virtqueueAdd] at h
  split_ifs at h with hbroken hbug hind
  · cases h
    exact ⟨fun hok ↦ absurd hok (by decide), fun _ ↦ ⟨rfl, rfl, rfl⟩, fun _ ↦ rfl⟩
  · cases h
    exact ⟨fun hok ↦ absurd hok (by decide), fun _ ↦ ⟨rfl, rfl, rfl⟩, fun _ ↦ rfl⟩
  · cases htable : env.table with
    | none =>
      rw [htable] at h
      exact addTail_rings h
    | some p =>
      rw [htable] at h
      obtain ⟨hok, herr, hbroken⟩ := addTail_rings h
      refine ⟨fun heq ↦ ?_, fun hne ↦ ?_, hbroken⟩
      · obtain ⟨havail, hring, hused⟩ := hok heq
        exact ⟨havail, hring, hused⟩
      · obtain ⟨havail, hring, hused⟩ := herr hne
        exact ⟨havail, hring, hused⟩
  · exact addTail_rings h

theorem getBuf_out (used : Used) {len : ℕ} (h : Sound vq.toBooks (o :: outs)) (hbroken : vq.broken = false)
    (hmore : vq.lastUsedIdx ≠ used.idx) (helem : used.ring (vq.lastUsedIdx &&& (vq.num - 1)) = ⟨o.head, len⟩) :
    ∃ books, vcaVirtqueueGetBuf vq used = some (some (o.token, len), advance { vq with toBooks := books }) ∧
      Sound books outs ∧ books.toParams = vq.toParams ∧ ∀ o' ∈ outs, Untouched vq.toBooks books o' := by
  obtain ⟨a, hdetach, hsound, hsame⟩ := h.detachBuf
  obtain ⟨-, hids, -, -⟩ := h.disjoint
  have hdata : vq.data o.head = some o.token := (h.data o.head o.token).mpr ⟨o, List.mem_cons_self, rfl, rfl⟩
  have hmore' : moreUsed vq used = true := decide_eq_true hmore
  refine ⟨o.givenBack vq.toBooks a, ?_, hsound, rfl, hsame⟩
  rw [vcaVirtqueueGetBuf]
  dsimp only
  rw [if_neg (by rw [hbroken]; exact Bool.false_ne_true), hmore', Bool.not_true, if_neg Bool.false_ne_true, helem]
  dsimp only
  rw [if_neg (Nat.not_le.mpr (hids _ List.mem_cons_self)), hdata]
  dsimp only
  rw [hdetach]
  rfl

/-! ## The invariant -/

variable {p : Params} {buf : ℕ → Out τ} {s s' : Sys τ}

namespace Sys

/-- How many buffers the host has taken out of the available ring. -/
def taken (s : Sys τ) : ℕ :=
  match s.host with
  | .walking _ _ => s.fetched.length + 1
  | _ => s.fetched.length

/-- How many buffers the index of the available ring counts. -/
def published (s : Sys τ) : ℕ := s.added.length - if s.pc = .filled then 1 else 0

/-- How many buffers the index of the used ring counts. -/
def usedPublished (s : Sys τ) : ℕ := s.completed.length - if s.pendingIdx = none then 0 else 1

/-- The buffers that are out. -/
def live (s : Sys τ) : List ℕ :=
  List.range' s.fetched.length (s.added.length - s.fetched.length) ++
    (s.holding ++ (s.completed.drop s.returned.length).map Prod.fst)

end Sys

/-- The available ring, with the indices that the driver has, that is in memory and that the host has. -/
structure AvailOk (n : ℕ) (buf : ℕ → Out τ) (ring : ℕ → ℕ) (driverIdx memIdx hostIdx added published taken : ℕ) :
    Prop where
  driverIdx_eq : driverIdx = added % 2 ^ 16
  memIdx_eq : memIdx = published % 2 ^ 16
  hostIdx_eq : hostIdx = taken % 2 ^ 16
  taken_le : taken ≤ published
  published_le : published ≤ added
  slots : Window n ring (fun i x ↦ i < added → x = (buf i).head) taken

/-- The used ring, with the indices that are in memory, that the host has and that the driver has. -/
structure UsedOk (n : ℕ) (buf : ℕ → Out τ) (ring : ℕ → UsedElem) (memIdx hostIdx driverIdx : ℕ)
    (completed : List (ℕ × ℕ)) (published returned : ℕ) : Prop where
  memIdx_eq : memIdx = published % 2 ^ 16
  hostIdx_eq : hostIdx % 2 ^ 16 = completed.length % 2 ^ 16
  driverIdx_eq : driverIdx = returned % 2 ^ 16
  returned_le : returned ≤ published
  published_le : published ≤ completed.length
  slots : Window n ring (fun i x ↦ ∀ c, completed[i]? = some c → x = ⟨(buf c.1).head, c.2⟩) returned

/-- What the host finds in a buffer. -/
def fetchedOf (dmaMap : Bool) (riov wiov : Option Kiov) (o : Out τ) : Fetched :=
  ⟨o.head, riov.map fun _ ↦ kvecs dmaMap false o.entries, wiov.map fun _ ↦ kvecs dmaMap true o.entries⟩

/-- What the host has read so far is right. -/
def HostOk (riov wiov : Option Kiov) (buf : ℕ → Out τ) (s : Sys τ) : HostPc → Prop
  | .idle => True
  | .seen idx => ∃ t, idx = t % 2 ^ 16 ∧ s.fetched.length ≤ t ∧ t ≤ s.published
  | .walking head w => head = (buf s.fetched.length).head ∧ OnWay s.driver.toBooks (buf s.fetched.length)
      (Walk.start s.driver.num (buf s.fetched.length).head riov wiov) w

structure Inv (p : Params) (riov wiov : Option Kiov) (buf : ℕ → Out τ) (s : Sys τ) : Prop where
  params : s.driver.toParams = p
  hostNum : s.vrh.num = p.num
  added : s.added = (List.range s.added.length).map fun i ↦ ((buf i).token, (buf i).entries)
  given : ∀ i < s.added.length, Given riov wiov (buf i).entries ∧ (buf i).entries.length ≤ p.num
  sound : Sound s.driver.toBooks (s.live.map buf)
  positions : (s.holding ++ s.completed.map Prod.fst).Perm (List.range s.fetched.length)
  avail : AvailOk p.num buf s.driver.availRing s.driver.availIdx s.availIdx s.vrh.lastAvailIdx s.added.length
    s.published s.taken
  host : HostOk riov wiov buf s s.host
  fetched : s.fetched = (List.range s.fetched.length).map fun i ↦ fetchedOf p.dmaMap riov wiov (buf i)
  used : UsedOk p.num buf s.used.ring s.used.idx (s.vrh.lastUsedIdx + s.vrh.completed) s.driver.lastUsedIdx
    s.completed s.usedPublished s.returned.length
  pending : ∀ idx, s.pendingIdx = some idx → idx = s.completed.length % 2 ^ 16 ∧ 0 < s.completed.length
  getter : ∀ idx, s.pc = .seen idx → ∃ t, idx = t % 2 ^ 16 ∧ s.returned.length ≤ t ∧ t ≤ s.usedPublished
  returned : s.returned = (s.completed.take s.returned.length).map fun c ↦ ((buf c.1).token, c.2)
  running : s.stopped = false
  broken : s.driver.broken = true → s.notifyFailed = true

/-- The size of a ring. -/
def RingSize (n : ℕ) : Prop := ∃ k ≤ 15, n = 2 ^ k

theorem RingSize.lt (h : RingSize n) : n < 2 ^ 16 := by
  obtain ⟨k, hk, rfl⟩ := h
  exact Nat.pow_lt_pow_right (by decide) (Nat.lt_succ_of_le hk)

theorem RingSize.mask (h : RingSize n) (a : ℕ) : a % 2 ^ 16 &&& (n - 1) = slot n a := by
  obtain ⟨k, hk, rfl⟩ := h
  rw [Nat.and_two_pow_sub_one_eq_mod, Nat.mod_mod_of_dvd _ (Nat.pow_dvd_pow 2 (Nat.le_succ_of_le hk)), slot]

theorem RingSize.slot_mod (h : RingSize n) (a : ℕ) : a % 2 ^ 16 % n = slot n a := by
  obtain ⟨k, hk, rfl⟩ := h
  rw [Nat.mod_mod_of_dvd _ (Nat.pow_dvd_pow 2 (Nat.le_succ_of_le hk)), slot]

theorem Sys.taken_le_succ (s : Sys τ) : s.fetched.length ≤ s.taken ∧ s.taken ≤ s.fetched.length + 1 := by
  rw [Sys.taken]
  cases s.host <;> constructor <;> simp

theorem Inv.fetched_le (h : Inv p riov wiov buf s) : s.fetched.length ≤ s.added.length :=
  s.taken_le_succ.1.trans (h.avail.taken_le.trans h.avail.published_le)

theorem Inv.length_positions (h : Inv p riov wiov buf s) :
    s.holding.length + s.completed.length = s.fetched.length := by
  have hlen := h.positions.length_eq
  rwa [List.length_append, List.length_map, List.length_range] at hlen

theorem Inv.room (h : Inv p riov wiov buf s) : s.live.length ≤ p.num ∧
    s.live.length + s.returned.length = s.added.length ∧ s.returned.length ≤ s.completed.length := by
  have hlive := h.sound.length_le
  have hnum : s.driver.num = p.num := congrArg Params.num h.params
  rw [List.length_map, hnum] at hlive
  have hreturned := h.used.returned_le.trans h.used.published_le
  have hfetched := h.fetched_le
  have hpositions := h.length_positions
  refine ⟨hlive, ?_, hreturned⟩
  rw [Sys.live, List.length_append, List.length_append, List.length_range', List.length_map, List.length_drop]
  omega

theorem Inv.completed_lt (h : Inv p riov wiov buf s) {c : ℕ × ℕ} (hc : c ∈ s.completed) : c.1 < s.fetched.length :=
  List.mem_range.mp (h.positions.mem_iff.mp (List.mem_append_right _ (List.mem_map_of_mem hc)))

theorem Inv.live_lt (h : Inv p riov wiov buf s) {i : ℕ} (hi : i ∈ s.live) : i < s.added.length := by
  have hfetched := h.fetched_le
  rcases List.mem_append.mp hi with hi | hi
  · have hbounds := List.mem_range'_1.mp hi
    omega
  · rcases List.mem_append.mp hi with hi | hi
    · exact (List.mem_range.mp (h.positions.mem_iff.mp (List.mem_append_left _ hi))).trans_le hfetched
    · obtain ⟨c, hc, rfl⟩ := List.mem_map.mp hi
      exact (h.completed_lt (List.mem_of_mem_drop hc)).trans_le hfetched

theorem Inv.congr (h : Inv p riov wiov buf s) (buf' : ℕ → Out τ) (hsame : ∀ i < s.added.length, buf' i = buf i) :
    Inv p riov wiov buf' s := by
  have hcompleted : ∀ c ∈ s.completed, buf' c.1 = buf c.1 := fun c hc ↦
    hsame _ ((h.completed_lt hc).trans_le h.fetched_le)
  have hlive : s.live.map buf' = s.live.map buf := List.map_congr_left fun i hi ↦ hsame i (h.live_lt hi)
  refine { h with
    added := ?_
    given := ?_
    sound := ?_
    avail := ?_
    host := ?_
    fetched := ?_
    used := ?_
    returned := ?_ }
  · refine h.added.trans (List.map_congr_left fun i hi ↦ ?_)
    rw [hsame i (List.mem_range.mp hi)]
  · intro i hi
    rw [hsame i hi]
    exact h.given i hi
  · rw [hlive]
    exact h.sound
  · refine { h.avail with slots := h.avail.slots.imp fun i x _ _ hx hi ↦ ?_ }
    rw [hsame i hi]
    exact hx hi
  · have hhost := h.host
    have hlt := h.avail.taken_le.trans h.avail.published_le
    rw [Sys.taken] at hlt
    cases hpc : s.host with
    | idle => trivial
    | seen idx =>
      rw [hpc] at hhost
      exact hhost
    | walking head w =>
      rw [hpc] at hhost hlt
      rw [HostOk, hsame _ hlt]
      exact hhost
  · refine h.fetched.trans (List.map_congr_left fun i hi ↦ ?_)
    rw [hsame i ((List.mem_range.mp hi).trans_le h.fetched_le)]
  · refine { h.used with slots := h.used.slots.imp fun i x _ _ hx c hc ↦ ?_ }
    rw [hcompleted c (List.mem_of_getElem? hc)]
    exact hx c hc
  · refine h.returned.trans (List.map_congr_left fun c hc ↦ ?_)
    rw [hcompleted c (List.mem_of_mem_take hc)]

end Vcass.Virtio.Transport
