import Vcass.Virtio.Driver
import Vcass.Virtio.Walk

/-!
# What the host reads is what the driver added

`__vringh_iov` turns the chain of a buffer that is out into the entries of the buffer: those to be read into one vector,
those to be written into the other, in order, with their addresses and lengths. It does not matter whether the chain
is in the ring's table or in an indirect one, and what happens to other descriptors in the meantime.
-/

namespace Vcass.Virtio.HostRing

open Conc Virtqueue

variable {τ : Type} {num fuel n i : ℕ} {dmaMap : Bool} {w : Walk} {mem : Memory} {desc : ℕ → Desc}
  {ids : List ℕ} {e : Entry} {es entries : List Entry} {riov wiov : Option Kiov}

/-- The range of memory of an entry. -/
def kvecOf (dmaMap : Bool) (e : Entry) : Kvec := ⟨e.addr dmaMap, e.sg.length⟩

/-- The ranges to be written, or those to be read. -/
def kvecs (dmaMap write : Bool) (entries : List Entry) : List Kvec :=
  (entries.filter fun e ↦ e.write == write).map (kvecOf dmaMap)

theorem Kiov.append_ok (iov : Kiov) (kvec : Kvec) :
    ∃ iov', iov.append kvec true = some iov' ∧ iov'.iov = iov.iov ++ [kvec] ∧ iov'.i = iov.i := by
  rw [Kiov.append]
  split_ifs with hfull
  · exact ⟨_, rfl, rfl, rfl⟩
  · exact ⟨_, rfl, rfl, rfl⟩

theorem kvecs_append (write : Bool) (entries es : List Entry) :
    kvecs dmaMap write (entries ++ es) = kvecs dmaMap write entries ++ kvecs dmaMap write es := by
  rw [kvecs, kvecs, kvecs, ← List.map_append, ← List.filter_append]

theorem kvecs_singleton (write : Bool) (e : Entry) :
    kvecs dmaMap write [e] = if e.write = write then [kvecOf dmaMap e] else [] := by
  rw [kvecs, List.filter_singleton]
  cases hew : e.write <;> cases write <;> rfl

/-- The vectors that are needed are there, and nothing was taken out of the one for writing. -/
structure Walk.Ready (w : Walk) (entries : List Entry) : Prop where
  needed : ∀ e ∈ entries, (w.vec e.write).isSome
  started : started w.wiov = false

/-- The vectors have got the ranges of the entries. -/
def Walk.Grown (dmaMap : Bool) (w w' : Walk) (entries : List Entry) : Prop :=
  ∀ b, (w'.vec b).map Kiov.iov = (w.vec b).map fun k ↦ k.iov ++ kvecs dmaMap b entries

theorem grown_refl (w : Walk) : w.Grown dmaMap w [] := by
  intro b
  cases w.vec b with
  | none => rfl
  | some k => exact congrArg some (List.append_nil k.iov).symm

theorem Walk.Grown.trans {w₁ w₂ : Walk} (h : w.Grown dmaMap w₁ entries) (h' : w₁.Grown dmaMap w₂ es) :
    w.Grown dmaMap w₂ (entries ++ es) := by
  intro b
  rw [h' b, kvecs_append]
  have hb := h b
  cases hw : w.vec b with
  | none =>
    rw [hw] at hb
    rw [Option.map_eq_none_iff.mp hb]
    rfl
  | some k =>
    rw [hw] at hb
    obtain ⟨k₁, hk₁, hiov⟩ := Option.map_eq_some_iff.mp hb
    rw [hk₁, Option.map_some, Option.map_some, hiov, List.append_assoc]

theorem plainRound_entry {d : Desc} (haddr : d.addr = e.addr dmaMap) (hlen : d.len = e.sg.length)
    (hwrite : decide (d.flags &&& descFWrite ≠ 0) = e.write) (hcount : w.count < num) (hready : w.Ready (e :: es)) :
    ∃ w', plainRound num d true w = follow num d w' ∧ w'.count = w.count + 1 ∧ w'.upNext = w.upNext ∧
      w'.table = w.table ∧ w'.descMax = w.descMax ∧ w.Grown dmaMap w' [e] ∧ w'.Ready es := by
  obtain ⟨iov, hiov⟩ := Option.isSome_iff_exists.mp (hready.needed e List.mem_cons_self)
  obtain ⟨iov', happend, hiov', hi⟩ := iov.append_ok (kvecOf dmaMap e)
  set w₁ : Walk := { w with count := w.count + 1 } with hw₁
  have hvec : w₁.vec e.write = some iov := hiov
  refine ⟨w₁.setVec e.write iov', ?_, by rw [Walk.setVec_count], by rw [Walk.setVec_upNext], by rw [Walk.setVec_table],
    by rw [Walk.setVec_descMax], fun b ↦ ?_, fun e' he' ↦ ?_, ?_⟩
  · rw [plainRound, if_neg (Nat.ne_of_lt hcount), hwrite, haddr, hlen, ← hw₁]
    dsimp only
    rw [hready.started, Bool.and_false, if_neg Bool.false_ne_true, hvec]
    dsimp only
    rw [← kvecOf, happend]
  · rw [kvecs_singleton]
    rcases eq_or_ne b e.write with rfl | hb
    · rw [Walk.vec_setVec_self, hiov, if_pos rfl, Option.map_some, Option.map_some, hiov']
    · rw [Walk.vec_setVec_of_ne _ hb, if_neg hb.symm]
      simp only [List.append_nil]
      rfl
  · rcases eq_or_ne e'.write e.write with heq | hne
    · rw [heq, Walk.vec_setVec_self]
      rfl
    · rw [Walk.vec_setVec_of_ne _ hne]
      exact hready.needed e' (List.mem_cons_of_mem _ he')
  · have hstarted := hready.started
    cases hew : e.write with
    | false => exact hstarted
    | true =>
      have hwiov : w.wiov = some iov := by rw [← hiov, hew]; rfl
      rw [hwiov] at hstarted
      rw [Walk.setVec, if_pos rfl]
      rw [started, Option.any_some] at hstarted ⊢
      rwa [hi]

/-- The descriptors of the chain are in the table that is walked over, and stay there. -/
structure Memory.Holds (mem : Memory) (table : Option ℕ) (desc : ℕ → Desc) (ids : List ℕ) : Prop where
  desc_eq : ∀ n, ∀ a ∈ ids, mem.desc n table a = desc a
  alloc : ∀ n, mem.alloc n = true

theorem round_last (hchain : Chain dmaMap desc w.i ids [e]) (hcount : w.count < num) (hup : ¬0 < w.upNext)
    (hready : w.Ready [e]) :
    ids = [w.i] ∧ ∃ w', round num (desc w.i) true w = .done w' ∧ w.Grown dmaMap w' [e] := by
  obtain ⟨hids, hcontent⟩ := chain_singleton.mp hchain
  obtain ⟨haddr, hlen, hflags⟩ := Desc.content_eq.mp hcontent
  obtain ⟨w', hplain, -, hup', -, -, hgrown, -⟩ := plainRound_entry haddr hlen (hflags ▸ clearFlag_and_write e) hcount
    hready
  refine ⟨hids, w', ?_, hgrown⟩
  rw [round, if_neg (not_not_intro hchain.head), hplain, follow,
    if_neg (by rw [hflags, clearFlag_and_next]; exact not_not_intro rfl), if_neg (hup' ▸ hup)]

theorem round_more {e' : Entry} (hchain : Chain dmaMap desc w.i ids (e :: e' :: es)) (hcount : w.count < num)
    (hids : ∀ a ∈ ids, a < w.descMax) (hready : w.Ready (e :: e' :: es)) :
    ∃ w' ids', ids = w.i :: ids' ∧ round num (desc w.i) true w = .go w' ∧ Chain dmaMap desc w'.i ids' (e' :: es) ∧
      w'.count = w.count + 1 ∧ w'.upNext = w.upNext ∧ w'.table = w.table ∧ w'.descMax = w.descMax ∧
        w.Grown dmaMap w' [e] ∧ w'.Ready (e' :: es) := by
  obtain ⟨ids', hids', hcontent, htail⟩ := chain_cons.mp hchain
  obtain ⟨haddr, hlen, hflags⟩ := Desc.content_eq.mp hcontent
  obtain ⟨w', hplain, hcount', hup', htable, hmax, hgrown, hready'⟩ := plainRound_entry haddr hlen
    (hflags ▸ flags_and_write e) hcount hready
  have hnext : (desc w.i).next < w.descMax := by
    obtain ⟨j, hj⟩ := htail.linked
    obtain ⟨a, ids'', rfl⟩ := List.exists_cons_of_length_pos (by rw [htail.length_eq]; exact Nat.succ_pos _)
    rw [(Segment.cons_iff.mp hj).1]
    exact hids a (hids' ▸ List.mem_cons_of_mem _ List.mem_cons_self)
  refine ⟨{ w' with i := (desc w.i).next }, ids', hids', ?_, htail, hcount', hup', htable, hmax, hgrown, hready'.needed,
    hready'.started⟩
  rw [round, if_neg (not_not_intro hchain.head), hplain, follow, if_pos (by rw [hflags]; exact flags_and_next e),
    checkIndex, if_neg (by dsimp only; omega)]

/-- The loop walks over a chain to its end. -/
theorem iovLoop_chain (hchain : Chain dmaMap desc w.i ids (e :: es)) (hmem : mem.Holds w.table desc ids)
    (hids : ∀ a ∈ ids, a < w.descMax) (hcount : w.count + ids.length ≤ num) (hup : ¬0 < w.upNext)
    (hready : w.Ready (e :: es)) (hfuel : ids.length ≤ fuel) :
    ∃ r, iovLoop num mem fuel n w = some r ∧ r.err = none ∧ w.Grown dmaMap r.walk (e :: es) := by
  have hpos : 0 < ids.length := by
    rw [hchain.length_eq]
    exact Nat.succ_pos _
  induction es generalizing e ids w fuel n with
  | nil =>
    have hlt : w.count < num := by omega
    obtain ⟨hself, w', hround, hgrown⟩ := round_last hchain hlt hup hready
    obtain ⟨fuel, rfl⟩ := Nat.exists_eq_add_one_of_ne_zero (by omega : fuel ≠ 0)
    rw [iovLoop, hmem.desc_eq n w.i (hself ▸ List.mem_singleton_self _), hmem.alloc, hround]
    exact ⟨_, rfl, rfl, hgrown⟩
  | cons e' es ih =>
    have hlt : w.count < num := by omega
    obtain ⟨w', ids', rfl, hround, htail, hcount', hup', htable, hmax, hgrown, hready'⟩ := round_more hchain hlt hids
      hready
    obtain ⟨fuel, rfl⟩ := Nat.exists_eq_add_one_of_ne_zero (by omega : fuel ≠ 0)
    rw [List.length_cons] at hcount hfuel
    obtain ⟨r, hr, herr, hgrown'⟩ := ih (n := n + 1) htail
      ⟨fun n a ha ↦ htable ▸ hmem.desc_eq n a (List.mem_cons_of_mem _ ha), hmem.alloc⟩
      (fun a ha ↦ hmax ▸ hids a (List.mem_cons_of_mem _ ha)) (hcount' ▸ (by omega : w.count + 1 + ids'.length ≤ num))
      (hup' ▸ hup) hready' (Nat.le_of_succ_le_succ hfuel) (by rw [htail.length_eq]; exact Nat.succ_pos _)
    rw [iovLoop, hmem.desc_eq n w.i List.mem_cons_self, hmem.alloc, hround]
    dsimp only
    rw [hr]
    exact ⟨_, rfl, herr, hgrown.trans hgrown'⟩

/-- Memory has what the driver wrote for a buffer that is out. -/
structure Memory.Shows (mem : Memory) (b : Books τ) (o : Out τ) : Prop where
  ring : mem.Holds none b.desc o.ids
  table : ∀ a t, o.table = some a → b.tables a = some t → mem.Holds (some a) t (List.range o.entries.length)

/-- There is a vector for each kind of entries, and if there are two the one for writing is empty. -/
structure Given (riov wiov : Option Kiov) (entries : List Entry) : Prop where
  read : ∀ e ∈ entries, e.write = false → riov.isSome
  write : ∀ e ∈ entries, e.write = true → wiov.isSome
  empty : riov.isSome → ∀ k, wiov = some k → k.iov = [] ∧ k.i = 0

instance (riov wiov : Option Kiov) (entries : List Entry) : Decidable (Given riov wiov entries) :=
  decidable_of_iff ((∀ e ∈ entries, e.write = false → riov.isSome) ∧ (∀ e ∈ entries, e.write = true → wiov.isSome) ∧
      (riov.isSome → ∀ k ∈ wiov, k.iov = [] ∧ k.i = 0))
    ⟨fun h ↦ ⟨h.1, h.2.1, h.2.2⟩, fun h ↦ ⟨h.read, h.write, h.empty⟩⟩

variable {b : Books τ} {o : Out τ}

theorem Given.ready (h : Given riov wiov entries) (num i : ℕ) : (Walk.start num i riov wiov).Ready entries where
  needed e he := by
    cases hew : e.write with
    | false =>
      rw [Walk.vec, if_neg Bool.false_ne_true, Walk.start, Option.isSome_map]
      exact h.read e he hew
    | true =>
      rw [Walk.vec, if_pos rfl, Walk.start]
      dsimp only
      split_ifs
      · exact h.write e he hew
      · rw [Option.isSome_map]
        exact h.write e he hew
  started := by
    rw [HostRing.started, Walk.start]
    dsimp only
    cases hw : wiov with
    | none => split_ifs <;> rfl
    | some k =>
      split_ifs with hr
      · rw [Option.any_some, (h.empty hr k hw).2]
        rfl
      · rfl

theorem Given.filled (h : Given riov wiov entries) (num i : ℕ) {w : Walk}
    (hgrown : (Walk.start num i riov wiov).Grown dmaMap w entries) :
    (w.riov.map Kiov.iov = riov.map fun _ ↦ kvecs dmaMap false entries) ∧
      w.wiov.map Kiov.iov = wiov.map fun _ ↦ kvecs dmaMap true entries := by
  constructor
  · refine (hgrown false).trans ?_
    rw [Walk.vec, if_neg Bool.false_ne_true, Walk.start]
    cases riov <;> rfl
  · refine (hgrown true).trans ?_
    rw [Walk.vec, if_pos rfl, Walk.start]
    dsimp only
    cases hw : wiov with
    | none => split_ifs <;> rfl
    | some k =>
      split_ifs with hr
      · rw [Option.map_some, Option.map_some, (h.empty hr k hw).1, List.nil_append]
      · rfl

/-- Where the walk stands behind an indirect descriptor. -/
def Walk.inTable (w : Walk) (a n : ℕ) : Walk := { w with i := 0, upNext := -2, table := some a, descMax := n }

theorem round_indirect {a n : ℕ} {d : Desc} (hcontent : d.content = (a, n * 16 % 2 ^ 32, descFIndirect))
    (hn : n ≤ 0xffff) (hup : w.upNext = -1) : round num d true w = .go (w.inTable a n) := by
  obtain ⟨haddr, hlen, hflags⟩ := Desc.content_eq.mp hcontent
  have hmod : n * 16 % 2 ^ 32 = n * 16 := Nat.mod_eq_of_lt (by omega)
  rw [round, if_pos (by rw [hflags]; decide), moveToIndirect, if_neg (not_not_intro hup),
    if_neg (by rw [hlen, hmod]; omega), if_neg (by rw [hflags]; decide), haddr, hlen, hmod,
    Nat.mul_div_cancel n (by decide), Walk.inTable]

theorem vringhIov_out (hchain : o.HasChain b) (hne : o.entries ≠ []) (hids : ∀ a ∈ o.ids, a < b.num)
    (hlen : o.entries.length ≤ b.num) (hnum : b.num ≤ 0xffff) (hmem : mem.Shows b o)
    (hgiven : Given riov wiov o.entries) (hfuel : b.num + 1 ≤ fuel) :
    ∃ r, vringhIov b.num mem fuel o.head riov wiov = some r ∧ r.err = none ∧
      (r.walk.riov.map Kiov.iov = riov.map fun _ ↦ kvecs b.dmaMap false o.entries) ∧
        r.walk.wiov.map Kiov.iov = wiov.map fun _ ↦ kvecs b.dmaMap true o.entries := by
  have hready := hgiven.ready b.num o.head
  obtain ⟨e, es, hes⟩ := List.exists_cons_of_ne_nil hne
  rw [vringhIov]
  cases htable : o.table with
  | none =>
    have hdirect := hchain.direct htable
    have hlength := hdirect.length_eq
    rw [hes] at hdirect hready hgiven ⊢
    obtain ⟨r, hr, herr, hgrown⟩ := iovLoop_chain (n := 0) (w := Walk.start b.num o.head riov wiov) hdirect hmem.ring
      hids (show 0 + o.ids.length ≤ b.num by omega) (show ¬(0 : ℤ) < -1 by decide) hready
      (show o.ids.length ≤ fuel by omega)
    exact ⟨r, hr, herr, hgiven.filled b.num o.head hgrown⟩
  | some a =>
    rw [Out.HasChain, htable] at hchain
    obtain ⟨-, hcontent, t, ht, hchain⟩ := hchain
    obtain ⟨fuel, rfl⟩ := Nat.exists_eq_add_one_of_ne_zero (by omega : fuel ≠ 0)
    set n := o.entries.length
    set w := Walk.start b.num o.head riov wiov
    have hdesc : mem.desc 0 w.table w.i = b.desc o.head := hmem.ring.desc_eq 0 o.head List.mem_cons_self
    have hwready : (w.inTable a n).Ready o.entries := ⟨hready.needed, hready.started⟩
    rw [hes] at hchain hwready hgiven ⊢
    obtain ⟨r, hr, herr, hgrown⟩ := iovLoop_chain (n := 1) (w := w.inTable a n) hchain (hmem.table a t htable ht)
      (fun i hi ↦ List.mem_range.mp hi) (show 0 + (List.range n).length ≤ b.num by rw [List.length_range]; omega)
      (show ¬(0 : ℤ) < -2 by decide) hwready (show (List.range n).length ≤ fuel by rw [List.length_range]; omega)
    rw [iovLoop, hdesc, hmem.ring.alloc, round_indirect hcontent (by omega) rfl]
    dsimp only
    rw [hr]
    exact ⟨_, rfl, herr, hgiven.filled b.num o.head hgrown⟩

theorem kvecs_entriesOf (dmaMap : Bool) (outSgs inSgs : List (List Sg)) :
    kvecs dmaMap false (entriesOf outSgs inSgs) = outSgs.flatten.map (fun sg ↦ kvecOf dmaMap ⟨sg, false⟩) ∧
      kvecs dmaMap true (entriesOf outSgs inSgs) = inSgs.flatten.map fun sg ↦ kvecOf dmaMap ⟨sg, true⟩ := by
  have hself (w : Bool) (l : List Sg) :
      (l.map (Entry.mk · w)).filter (fun e ↦ e.write == w) = l.map (Entry.mk · w) := by
    refine List.filter_eq_self.mpr fun e he ↦ ?_
    obtain ⟨sg, -, rfl⟩ := List.mem_map.mp he
    exact beq_self_eq_true w
  have hother (w v : Bool) (hwv : w ≠ v) (l : List Sg) :
      (l.map (Entry.mk · w)).filter (fun e ↦ e.write == v) = [] := by
    refine List.filter_eq_nil_iff.mpr fun e he ↦ ?_
    obtain ⟨sg, -, rfl⟩ := List.mem_map.mp he
    exact fun h ↦ hwv (beq_iff_eq.mp h)
  rw [kvecs, kvecs, entriesOf, List.filter_append, List.filter_append, hself, hself, hother false true (by decide),
    hother true false (by decide), List.append_nil, List.nil_append, List.map_map, List.map_map]
  exact ⟨rfl, rfl⟩

/-- **Round trip.** In any state that the driver comes to, a buffer that `virtqueue_add` accepts is what `__vringh_iov`
finds from its head on: the entries to be read, then those to be written, with their addresses and lengths. -/
theorem vringhIov_addSgs {callback indirect event : Bool} {s t : Driver τ} {ops : List (Op τ)}
    {outSgs inSgs : List (List Sg)} {data : τ} {env : AddEnv} {vq : VringVirtqueue τ}
    (hnew : Driver.new num callback indirect event dmaMap = some s) (hrun : exec Driver.step s ops = some t)
    (hnum : num ≤ 0xffff) (hallowed : (Op.addSgs outSgs inSgs data env).Allowed t.vq)
    (hadd : vcaVirtqueueAddSgs t.vq outSgs inSgs data env = (.ok, vq))
    (hring : ∀ n i, mem.desc n none i = vq.desc i)
    (htables : ∀ n a table i, vq.tables a = some table → mem.desc n (some a) i = table i)
    (halloc : ∀ n, mem.alloc n = true) (hgiven : Given riov wiov (entriesOf outSgs inSgs)) :
    ∃ r, vringhIov num mem (num + 1) t.vq.freeHead riov wiov = some r ∧ r.err = none ∧
      (r.walk.riov.map Kiov.iov = riov.map fun _ ↦ outSgs.flatten.map fun sg ↦ kvecOf dmaMap ⟨sg, false⟩) ∧
        r.walk.wiov.map Kiov.iov = wiov.map fun _ ↦ inSgs.flatten.map fun sg ↦ kvecOf dmaMap ⟨sg, true⟩ := by
  obtain ⟨outs, h⟩ := (bookkept_new hnew).exec hrun
  obtain ⟨hne, hlen, hfresh, -⟩ := hallowed
  have hparams := h.params
  rcases h.sound.virtqueueAdd hne hlen hfresh hadd with ⟨-, o, -, hentries, htaken⟩ | ⟨hok, -⟩
  · have hsound := (h.sound.add htaken).1
    obtain ⟨-, hids, -, -⟩ := hsound.disjoint
    have hhead : o.head = t.vq.freeHead := htaken.front.1.symm
    have hnum' : vq.num = num := htaken.num_eq.trans (congrArg Params.num hparams)
    have hdma : vq.dmaMap = dmaMap := htaken.dmaMap_eq.trans (congrArg Params.dmaMap hparams)
    have hshows : mem.Shows vq.toBooks o :=
      ⟨⟨fun n i _ ↦ hring n i, halloc⟩, fun a table _ ha ↦ ⟨fun n i _ ↦ htables n a table i ha, halloc⟩⟩
    obtain ⟨r, hr, herr, hriov, hwiov⟩ := vringhIov_out htaken.chain htaken.entries_ne hids
      (by rw [hentries, htaken.num_eq]; exact hlen) (by rw [hnum']; exact hnum) hshows
      (hentries ▸ hgiven : Given riov wiov o.entries) (Nat.le_refl _)
    rw [hnum', hhead] at hr
    rw [hdma, hentries] at hriov hwiov
    obtain ⟨hread, hwrite⟩ := kvecs_entriesOf dmaMap outSgs inSgs
    exact ⟨r, hr, herr, hread ▸ hriov, hwrite ▸ hwiov⟩
  · exact absurd rfl hok

/-- Memory that stays as the driver left it. -/
def memoryOf (vq : VringVirtqueue τ) : Memory where
  desc _ table i := match table with
    | none => vq.desc i
    | some a => ((vq.tables a).getD fun _ ↦ ⟨0, 0, 0, 0⟩) i
  alloc _ := true

/-- Two entries, in an indirect table. -/
def sampleOut : List (List Sg) := [[⟨4096, 0, 10⟩, ⟨8192, 0, 20⟩]]

def sampleEnv : AddEnv := { AddEnv.plain with table := some (65536, fun _ ↦ ⟨0, 0, 0, 0⟩) }

theorem vringhIov_sampleOut : ∃ (t : Driver ℕ) (vq : VringVirtqueue ℕ),
    Driver.new 4 true true false false = some t ∧ vcaVirtqueueAddSgs t.vq sampleOut [] 7 sampleEnv = (.ok, vq) ∧
      ∃ r, vringhIov 4 (memoryOf vq) 5 t.vq.freeHead (some ⟨[], 0, 0, 0, false⟩) none = some r ∧ r.err = none ∧
        (r.walk.riov.map Kiov.iov = some [⟨4096, 10⟩, ⟨8192, 20⟩]) ∧ r.walk.wiov.map Kiov.iov = none := by
  refine ⟨_, _, rfl, rfl, ?_⟩
  refine @vringhIov_addSgs ℕ 4 false _ (some ⟨[], 0, 0, 0, false⟩) none true true false _ _ [] sampleOut [] 7
    sampleEnv _ rfl rfl (by decide) ⟨by decide, by decide, ?_, nofun⟩ rfl (fun _ _ ↦ rfl) (fun _ _ _ _ ha ↦ ?_)
    (fun _ ↦ rfl) ?_
  · rintro p ⟨⟩
    rfl
  · rw [memoryOf]
    dsimp only
    rw [ha, Option.getD_some]
  · refine ⟨fun _ _ _ ↦ rfl, by decide, ?_⟩
    rintro - k ⟨⟩

end Vcass.Virtio.HostRing
