import Mathlib.Data.List.Perm.Basic
import Vcass.Virtio.Chains

/-!
# The books of a virtqueue

A buffer that was added and is not back is *out*. `Sound` says how the driver's books account for the buffers that are
out: the free list and the descriptors of these buffers are all descriptors, each of them once; `data` has their
tokens at their heads and nothing else; each of them has its chain, in the ring's table or in an indirect table of its
own; what is mapped for DMA and not unmapped belongs to one of them.

Adding a buffer, getting one back and detaching one keep the books sound. The other side may write what it likes to
the used ring.
-/

namespace Vcass.Virtio.Virtqueue

open Function (update)

variable {τ : Type}

/-- A buffer that is out: its descriptors from the head on, and the address of its indirect table. -/
structure Out (τ : Type) where
  token : τ
  entries : List Entry
  head : ℕ
  rest : List ℕ
  table : Option ℕ

def Out.ids (o : Out τ) : List ℕ := o.head :: o.rest

def Out.mappings (o : Out τ) : List Mapping := o.entries.map mappingOf

/-- The chain of a buffer that is out. -/
def Out.HasChain (o : Out τ) (b : Books τ) : Prop :=
  match o.table with
  | none => Chain b.dmaMap b.desc o.head o.ids o.entries
  | some a => o.rest = [] ∧ (b.desc o.head).content = (a, o.entries.length * 16 % 2 ^ 32, descFIndirect) ∧
      ∃ table, b.tables a = some table ∧ Chain b.dmaMap table 0 (List.range o.entries.length) o.entries

/-- The books account for the buffers that are out. -/
structure Sound (b : Books τ) (outs : List (Out τ)) : Prop where
  free : ∃ fl j, Segment (links b.desc) b.freeHead fl j ∧ fl.length = b.numFree ∧
    (fl ++ outs.flatMap Out.ids).Perm (List.range b.num)
  held : ∀ o ∈ outs, o.entries ≠ [] ∧ o.HasChain b
  data : ∀ i t, b.data i = some t ↔ ∃ o ∈ outs, o.head = i ∧ o.token = t
  nodup : (outs.filterMap Out.table).Nodup
  /-- If mapping fails after `kmalloc` a table is lost. -/
  noLeak : b.dmaMap = false → ∀ a, b.tables a ≠ none → ∃ o ∈ outs, o.table = some a
  direct : b.indirect = false → ∀ o ∈ outs, o.table = none
  /-- `detach_buf` does not unmap what an indirect table says. -/
  mapped : b.dmaMap = true → b.indirect = false → b.maps.Perm (b.unmaps ++ outs.flatMap Out.mappings)

variable {b b' : Books τ} {o : Out τ} {outs outs' : List (Out τ)}

/-- The order of the buffers does not matter. -/
theorem Sound.perm (h : Sound b outs) (hperm : outs.Perm outs') : Sound b outs' where
  free := by
    obtain ⟨fl, j, hseg, hlen, hall⟩ := h.free
    exact ⟨fl, j, hseg, hlen, ((hperm.symm.flatMap_right _).append_left fl).trans hall⟩
  held o ho := h.held o (hperm.mem_iff.mpr ho)
  data i t := (h.data i t).trans (exists_congr fun _ ↦ and_congr_left' hperm.mem_iff)
  nodup := (hperm.filterMap _).nodup_iff.mp h.nodup
  noLeak hdma a ha := (exists_congr fun _ ↦ and_congr_left' hperm.mem_iff).mp (h.noLeak hdma a ha)
  direct hind o ho := h.direct hind o (hperm.mem_iff.mpr ho)
  mapped hdma hind := (h.mapped hdma hind).trans ((hperm.flatMap_right _).append_left _)

/-- The descriptors and the table of a buffer stay as they are. -/
structure Untouched (b b' : Books τ) (o : Out τ) : Prop where
  desc_eq : ∀ i ∈ o.ids, b'.desc i = b.desc i
  tables_eq : ∀ a, o.table = some a → b'.tables a = b.tables a

theorem untouched_refl (b : Books τ) (o : Out τ) : Untouched b b o := ⟨fun _ _ ↦ rfl, fun _ _ ↦ rfl⟩

/-- A chain only depends on its own descriptors and its own table. -/
theorem Out.HasChain.congr (h : o.HasChain b) (hdma : b'.dmaMap = b.dmaMap) (hsame : Untouched b b' o) :
    o.HasChain b' := by
  rw [Out.HasChain] at h ⊢
  cases ht : o.table with
  | none =>
    rw [ht] at h
    rw [hdma]
    exact Chain.congr h hsame.desc_eq
  | some a =>
    rw [ht] at h
    dsimp only at h ⊢
    rw [hdma, hsame.desc_eq o.head List.mem_cons_self, hsame.tables_eq a ht]
    exact h

theorem Out.HasChain.linked (h : o.HasChain b) : ∃ j, Segment (links b.desc) o.head o.ids j := by
  rw [Out.HasChain] at h
  cases ht : o.table with
  | none =>
    rw [ht] at h
    exact h.linked
  | some a =>
    rw [ht] at h
    rw [Out.ids, h.1]
    exact ⟨_, rfl, rfl⟩

theorem Sound.disjoint (h : Sound b (o :: outs)) :
    o.ids.Nodup ∧ (∀ i ∈ o.ids, i < b.num) ∧ o.ids.length ≤ b.num ∧ ∀ o' ∈ outs, o'.ids.Disjoint o.ids := by
  obtain ⟨fl, j, -, -, hall⟩ := h.free
  have hnodup := (hall.nodup_iff.mpr List.nodup_range).of_append_right
  rw [List.flatMap_cons] at hall hnodup
  have hsub : ∀ i ∈ o.ids, i < b.num := fun i hi ↦
    List.mem_range.mp (hall.mem_iff.mp (List.mem_append_right _ (List.mem_append_left _ hi)))
  have hlen := hall.length_eq
  rw [List.length_append, List.length_append, List.length_range] at hlen
  refine ⟨hnodup.of_append_left, hsub, by omega, fun o' ho' i hi' hi ↦ ?_⟩
  exact (List.nodup_append.mp hnodup).2.2 i hi i (List.mem_flatMap_of_mem ho' hi') rfl

theorem Sound.table_ne {a : ℕ} (h : Sound b (o :: outs)) (ha : o.table = some a) :
    ∀ o' ∈ outs, o'.table ≠ some a := by
  intro o' ho' ha'
  have hnodup := h.nodup
  rw [List.filterMap_cons_some ha] at hnodup
  exact (List.nodup_cons.mp hnodup).1 (List.mem_filterMap.mpr ⟨o', ho', ha'⟩)

/-! ## Giving the descriptors of a buffer back -/

/-- An indirect descriptor does not continue, and is the head of nothing else. -/
theorem Out.HasChain.indirect {a : ℕ} (h : o.HasChain b) (ha : o.table = some a) :
    o.rest = [] ∧ (b.desc o.head).addr = a ∧ (b.desc o.head).flags = descFIndirect := by
  rw [Out.HasChain, ha] at h
  obtain ⟨hrest, hcontent, -⟩ := h
  obtain ⟨haddr, -, hflags⟩ := Desc.content_eq.mp hcontent
  exact ⟨hrest, haddr, hflags⟩

theorem Out.HasChain.direct (h : o.HasChain b) (ha : o.table = none) :
    Chain b.dmaMap b.desc o.head o.ids o.entries := by
  rwa [Out.HasChain, ha] at h

def releaseTable (tables : ℕ → Option (ℕ → Desc)) : Option ℕ → ℕ → Option (ℕ → Desc)
  | none => tables
  | some a => update tables a none

/-- The indirect table that `detach_buf` frees is that of the buffer. -/
theorem Out.HasChain.freed (h : o.HasChain b) (hne : o.entries ≠ []) :
    (if (b.desc o.head).flags &&& descFIndirect ≠ 0 then update b.tables (b.desc o.head).addr none else b.tables) =
      releaseTable b.tables o.table := by
  cases ha : o.table with
  | none =>
    obtain ⟨e, es, hes⟩ := List.exists_cons_of_ne_nil hne
    exact if_neg (not_not_intro (Chain.head (hes ▸ h.direct ha)))
  | some a =>
    obtain ⟨-, haddr, hflags⟩ := h.indirect ha
    rw [if_pos (by rw [hflags]; decide), haddr, releaseTable]

theorem releaseTable_of_ne (tables : ℕ → Option (ℕ → Desc)) {table : Option ℕ} {x : ℕ} (h : table ≠ some x) :
    releaseTable tables table x = tables x := by
  cases table with
  | none => rfl
  | some a => exact Function.update_of_ne (fun hxa ↦ h (congrArg some hxa.symm)) ..

/-- The loop of `detach_buf` ends at the last descriptor of the buffer. -/
theorem Out.HasChain.detachLoop {fuel : ℕ} (h : o.HasChain b) (hne : o.entries ≠ []) (hfuel : o.ids.length ≤ fuel)
    (numFree : ℕ) (unmaps : List Mapping) :
    ∃ l a, o.ids = l ++ [a] ∧ detachLoop b.dmaMap b.desc fuel o.head numFree unmaps =
      some (a, numFree + l.length, if b.dmaMap then unmaps ++ l.map (unmapSingle ∘ b.desc) else unmaps) := by
  cases ha : o.table with
  | none =>
    obtain ⟨e, es, hes⟩ := List.exists_cons_of_ne_nil hne
    exact Chain.detachLoop (hes ▸ h.direct ha) hfuel numFree unmaps
  | some a =>
    obtain ⟨hrest, -, hflags⟩ := h.indirect ha
    obtain ⟨fuel, rfl⟩ := Nat.exists_eq_add_one_of_ne_zero (Nat.ne_of_gt (Nat.lt_of_lt_of_le (Nat.succ_pos _) hfuel))
    refine ⟨[], o.head, by rw [Out.ids, hrest, List.nil_append], ?_⟩
    rw [Virtqueue.detachLoop, if_neg (by rw [hflags]; decide)]
    simp

/-- The books when a buffer whose last descriptor is `last` is given back. -/
def Out.givenBack (o : Out τ) (b : Books τ) (last : ℕ) : Books τ :=
  { b with
    data := update b.data o.head none
    tables := releaseTable b.tables o.table
    desc := update b.desc last { b.desc last with next := b.freeHead }
    freeHead := o.head
    numFree := b.numFree + o.ids.length
    unmaps := if b.dmaMap then b.unmaps ++ o.ids.map (unmapSingle ∘ b.desc) else b.unmaps }

theorem Out.HasChain.detachBuf {vq : VringVirtqueue τ} (h : o.HasChain vq.toBooks) (hne : o.entries ≠ [])
    (hfuel : o.ids.length ≤ vq.num) :
    ∃ l a, o.ids = l ++ [a] ∧ detachBuf vq o.head = some { vq with toBooks := o.givenBack vq.toBooks a } := by
  obtain ⟨l, a, hids, hloop⟩ := h.detachLoop hne hfuel vq.numFree vq.unmaps
  refine ⟨l, a, hids, ?_⟩
  rw [Virtqueue.detachBuf, hloop, Option.map_some, Out.givenBack, h.freed hne, hids, List.length_append,
    List.length_singleton, List.map_append, List.map_singleton]
  dsimp only
  split_ifs with hdma
  · rw [List.append_assoc, Nat.add_assoc, Function.comp_apply]
  · rw [Nat.add_assoc]

theorem links_update_next (desc : ℕ → Desc) (a n : ℕ) :
    links (update desc a { desc a with next := n }) = update (links desc) a n := by
  funext i
  rcases eq_or_ne i a with rfl | hia
  · rw [links, Function.update_self, Function.update_self]
  · rw [links, Function.update_of_ne hia, Function.update_of_ne hia, links]

theorem Sound.untouched_givenBack {l : List ℕ} {a : ℕ} (h : Sound b (o :: outs)) (hids : o.ids = l ++ [a]) :
    ∀ o' ∈ outs, Untouched b (o.givenBack b a) o' := by
  intro o' ho'
  constructor
  · intro i hi
    refine Function.update_of_ne ?_ ..
    rintro rfl
    refine h.disjoint.2.2.2 o' ho' hi ?_
    rw [hids]
    exact List.mem_append_right _ (List.mem_singleton_self _)
  · intro x hx
    exact releaseTable_of_ne _ fun ht ↦ h.table_ne ht o' ho' hx

theorem Sound.givenBack {l : List ℕ} {a : ℕ} (h : Sound b (o :: outs)) (hids : o.ids = l ++ [a]) :
    Sound (o.givenBack b a) outs := by
  obtain ⟨hne, hchain⟩ := h.held o List.mem_cons_self
  obtain ⟨hnodup, -, -, hdisjoint⟩ := h.disjoint
  have ha : a ∈ o.ids := by rw [hids]; exact List.mem_append_right _ (List.mem_singleton_self a)
  have hal : a ∉ l := fun hmem ↦ (List.nodup_append.mp (hids ▸ hnodup)).2.2 a hmem a (List.mem_singleton_self a) rfl
  refine ⟨?_, fun o' ho' ↦ ?_, fun i t ↦ ?_, ?_, fun hdma x hx ↦ ?_, fun hind o' ho' ↦ ?_, fun hdma hind ↦ ?_⟩
  · obtain ⟨fl, j, hseg, hlen, hall⟩ := h.free
    obtain ⟨j', hj'⟩ := hchain.linked
    rw [List.flatMap_cons] at hall
    have hafl : a ∉ fl := fun hmem ↦ (List.nodup_append.mp (hall.nodup_iff.mpr List.nodup_range)).2.2 a hmem a
      (List.mem_append_left _ ha) rfl
    refine ⟨o.ids ++ fl, j, ?_, ?_, ?_⟩
    · rw [Out.givenBack, links_update_next]
      refine Segment.append_iff.mpr ⟨b.freeHead, ?_, (Segment.update_of_notMem hafl).mpr hseg⟩
      rw [hids] at hj' ⊢
      exact Segment.redirect hj' hal _
    · rw [List.length_append, hlen, Nat.add_comm]
      rfl
    · refine List.Perm.trans ?_ hall
      rw [← List.append_assoc]
      exact List.perm_append_comm.append_right _
  · obtain ⟨hne', hchain'⟩ := h.held o' (List.mem_cons_of_mem _ ho')
    exact ⟨hne', hchain'.congr rfl (h.untouched_givenBack hids o' ho')⟩
  · have hhead : ∀ o' ∈ outs, o'.head ≠ o.head := fun o' ho' heq ↦
      hdisjoint o' ho' List.mem_cons_self (heq ▸ List.mem_cons_self)
    rw [Out.givenBack]
    dsimp only
    rcases eq_or_ne i o.head with rfl | hi
    · rw [Function.update_self]
      refine iff_of_false (by simp) ?_
      rintro ⟨o', ho', heq, -⟩
      exact hhead o' ho' heq
    · rw [Function.update_of_ne hi, h.data]
      constructor
      · rintro ⟨o', ho', rfl, rfl⟩
        exact ⟨o', (List.mem_cons.mp ho').resolve_left fun heq ↦ hi (congrArg Out.head heq), rfl, rfl⟩
      · rintro ⟨o', ho', hheq⟩
        exact ⟨o', List.mem_cons_of_mem _ ho', hheq⟩
  · have htables := h.nodup
    rw [← List.singleton_append, List.filterMap_append] at htables
    exact htables.of_append_right
  · have hxo : o.table ≠ some x := by
      intro ht
      refine hx ?_
      rw [Out.givenBack, ht]
      exact Function.update_self ..
    obtain ⟨o', ho', hx'⟩ := h.noLeak hdma x (by rwa [← releaseTable_of_ne b.tables hxo])
    refine ⟨o', (List.mem_cons.mp ho').resolve_left ?_, hx'⟩
    rintro rfl
    exact hxo hx'
  · exact h.direct hind o' (List.mem_cons_of_mem _ ho')
  · replace hdma : b.dmaMap = true := hdma
    have hmapped := h.mapped hdma hind
    have hdirect := hchain.direct (h.direct hind o List.mem_cons_self)
    rw [hdma] at hdirect
    rw [List.flatMap_cons, Out.mappings, ← hdirect.map_unmapSingle, ← List.append_assoc] at hmapped
    rwa [Out.givenBack, hdma, if_pos rfl]

/-- `detach_buf` of a buffer that is out ends, and the books are sound afterwards. -/
theorem Sound.detachBuf {vq : VringVirtqueue τ} (h : Sound vq.toBooks (o :: outs)) :
    ∃ a, detachBuf vq o.head = some { vq with toBooks := o.givenBack vq.toBooks a } ∧
      Sound (o.givenBack vq.toBooks a) outs ∧ ∀ o' ∈ outs, Untouched vq.toBooks (o.givenBack vq.toBooks a) o' := by
  obtain ⟨hne, hchain⟩ := h.held o List.mem_cons_self
  obtain ⟨-, -, hlen, -⟩ := h.disjoint
  obtain ⟨l, a, hids, hdetach⟩ := hchain.detachBuf hne hlen
  exact ⟨a, hdetach, h.givenBack hids, h.untouched_givenBack hids⟩

/-! ## Adding a buffer -/

/-- The buffer `o` goes out: it takes its descriptors from the front of the free list. -/
structure Taken (b : Books τ) (o : Out τ) (b' : Books τ) : Prop where
  entries_ne : o.entries ≠ []
  chain : o.HasChain b'
  front : Segment (links b.desc) b.freeHead o.ids b'.freeHead
  links_eq : links b'.desc = links b.desc
  desc_eq : ∀ i ∉ o.ids, b'.desc i = b.desc i
  numFree_eq : b.numFree = b'.numFree + o.ids.length
  data_eq : b'.data = update b.data o.head (some o.token)
  fresh : ∀ a, o.table = some a → b.tables a = none
  tables_eq : ∀ a, o.table ≠ some a → b'.tables a = b.tables a
  params_eq : b'.toParams = b.toParams
  direct : b.indirect = false → o.table = none
  maps_eq : b.dmaMap = true → b'.maps = b.maps ++ o.mappings
  unmaps_eq : b'.unmaps = b.unmaps

theorem Sound.front {ids : List ℕ} {m : ℕ} (h : Sound b outs) (hseg : Segment (links b.desc) b.freeHead ids m)
    (hlen : ids.length ≤ b.numFree) :
    ∃ fl j, Segment (links b.desc) m fl j ∧ b.numFree = fl.length + ids.length ∧
      (fl ++ (ids ++ outs.flatMap Out.ids)).Perm (List.range b.num) := by
  obtain ⟨fl, j, hfl, hfllen, hall⟩ := h.free
  obtain ⟨m', htake, hdrop⟩ := hfl.split ids.length
  obtain ⟨hids, rfl⟩ := hseg.unique htake (by rw [List.length_take]; omega)
  refine ⟨fl.drop ids.length, j, hdrop, ?_, ?_⟩
  · rw [List.length_drop]
    omega
  · refine List.Perm.trans ?_ hall
    conv_rhs => rw [← List.take_append_drop ids.length fl, ← hids, List.append_assoc]
    rw [← List.append_assoc, ← List.append_assoc]
    exact List.perm_append_comm.append_right _

theorem Taken.num_eq (h : Taken b o b') : b'.num = b.num := congrArg Params.num h.params_eq

theorem Taken.dmaMap_eq (h : Taken b o b') : b'.dmaMap = b.dmaMap := congrArg Params.dmaMap h.params_eq

theorem Taken.indirect_eq (h : Taken b o b') : b'.indirect = b.indirect := congrArg Params.indirect h.params_eq

theorem Sound.table_ne_none {a : ℕ} (h : Sound b outs) (ho : o ∈ outs) (ha : o.table = some a) :
    b.tables a ≠ none := by
  have hchain := (h.held o ho).2
  rw [Out.HasChain, ha] at hchain
  obtain ⟨-, -, table, htab, -⟩ := hchain
  rw [htab]
  exact Option.some_ne_none table

theorem Sound.add (h : Sound b outs) (htaken : Taken b o b') :
    Sound b' (o :: outs) ∧ ∀ o' ∈ outs, Untouched b b' o' := by
  obtain ⟨fl, j, hfl, hlen, hall⟩ := h.front htaken.front (by rw [htaken.numFree_eq]; exact Nat.le_add_left ..)
  have hdisjoint : ∀ o' ∈ outs, o'.ids.Disjoint o.ids := by
    intro o' ho' i hi' hi
    have hnodup := (hall.nodup_iff.mpr List.nodup_range).of_append_right
    exact (List.nodup_append.mp hnodup).2.2 i hi i (List.mem_flatMap_of_mem ho' hi') rfl
  have hsame : ∀ o' ∈ outs, Untouched b b' o' := fun o' ho' ↦
    ⟨fun i hi ↦ htaken.desc_eq i (hdisjoint o' ho' hi), fun a ha ↦ htaken.tables_eq a fun heq ↦
      h.table_ne_none ho' ha (htaken.fresh a heq)⟩
  refine ⟨⟨⟨fl, j, ?_, ?_, ?_⟩, fun o' ho' ↦ ?_, fun i t ↦ ?_, ?_, fun hdma a ha ↦ ?_, fun hind o' ho' ↦ ?_,
    fun hdma hind ↦ ?_⟩, hsame⟩
  · rwa [htaken.links_eq]
  · have hnum := htaken.numFree_eq
    omega
  · rwa [List.flatMap_cons, htaken.num_eq]
  · rcases List.mem_cons.mp ho' with rfl | ho'
    · exact ⟨htaken.entries_ne, htaken.chain⟩
    · obtain ⟨hne, hchain⟩ := h.held o' ho'
      exact ⟨hne, hchain.congr htaken.dmaMap_eq (hsame o' ho')⟩
  · have hhead : ∀ o' ∈ outs, o'.head ≠ o.head := fun o' ho' heq ↦
      hdisjoint o' ho' List.mem_cons_self (heq ▸ List.mem_cons_self)
    rw [htaken.data_eq]
    rcases eq_or_ne i o.head with rfl | hi
    · rw [Function.update_self]
      constructor
      · intro ht
        exact ⟨o, List.mem_cons_self, rfl, Option.some_inj.mp ht⟩
      · rintro ⟨o', ho', heq, rfl⟩
        rcases List.mem_cons.mp ho' with rfl | ho'
        · rfl
        · exact absurd heq (hhead o' ho')
    · rw [Function.update_of_ne hi, h.data]
      constructor
      · rintro ⟨o', ho', heq⟩
        exact ⟨o', List.mem_cons_of_mem _ ho', heq⟩
      · rintro ⟨o', ho', rfl, ht⟩
        exact ⟨o', (List.mem_cons.mp ho').resolve_left fun heq ↦ hi (congrArg Out.head heq), rfl, ht⟩
  · cases ha : o.table with
    | none => rw [List.filterMap_cons_none ha]; exact h.nodup
    | some a =>
      rw [List.filterMap_cons_some ha]
      refine List.nodup_cons.mpr ⟨fun hmem ↦ ?_, h.nodup⟩
      obtain ⟨o', ho', ha'⟩ := List.mem_filterMap.mp hmem
      exact h.table_ne_none ho' ha' (htaken.fresh a ha)
  · rcases eq_or_ne o.table (some a) with heq | hne
    · exact ⟨o, List.mem_cons_self, heq⟩
    · rw [htaken.dmaMap_eq] at hdma
      rw [htaken.tables_eq a hne] at ha
      obtain ⟨o', ho', heq⟩ := h.noLeak hdma a ha
      exact ⟨o', List.mem_cons_of_mem _ ho', heq⟩
  · rw [htaken.indirect_eq] at hind
    rcases List.mem_cons.mp ho' with rfl | ho'
    · exact htaken.direct hind
    · exact h.direct hind o' ho'
  · rw [htaken.dmaMap_eq] at hdma
    rw [htaken.indirect_eq] at hind
    rw [htaken.maps_eq hdma, htaken.unmaps_eq, List.flatMap_cons]
    refine ((h.mapped hdma hind).append_right _).trans ?_
    rw [List.append_assoc]
    exact List.perm_append_comm.append_left _

/-- There are as many cells on the free list as `num_free` says. -/
theorem Sound.exists_front (h : Sound b outs) {n : ℕ} (hn : n ≤ b.numFree) :
    ∃ ids m, Segment (links b.desc) b.freeHead ids m ∧ ids.length = n ∧ ids.Nodup := by
  obtain ⟨fl, j, hfl, hlen, hall⟩ := h.free
  obtain ⟨m, htake, -⟩ := hfl.split n
  have hnodup := (hall.nodup_iff.mpr List.nodup_range).of_append_left
  exact ⟨_, m, htake, by rw [List.length_take]; omega, hnodup.sublist (List.take_sublist _ _)⟩

variable {vq : VringVirtqueue τ} {entries : List Entry} {data : τ} {mem : ℕ → Desc} {a : ℕ}

theorem Sound.taken_direct (h : Sound vq.toBooks outs) (hne : entries ≠ []) (hlen : entries.length ≤ vq.numFree) :
    ∃ rest, Taken vq.toBooks ⟨data, entries, vq.freeHead, rest, none⟩
      (expose (place (reserve vq entries.length entries) entries none) vq.freeHead data).toBooks := by
  obtain ⟨ids, m, hseg, hids, hnodup⟩ := h.exists_front hlen
  obtain ⟨hi, houtside, hchain⟩ := addEntries_spec vq.dmaMap hseg hnodup hids
  obtain ⟨i, rest, rfl⟩ := List.exists_cons_of_length_pos (hids ▸ List.length_pos_iff.mpr hne)
  obtain ⟨rfl, hseg⟩ := hseg
  subst hi
  refine ⟨rest, hne, hchain, ⟨rfl, hseg⟩, links_addEntries, houtside, ?_, rfl, ?_, fun _ _ ↦ rfl, rfl,
    fun _ ↦ rfl, fun hdma ↦ if_pos hdma, rfl⟩
  · rw [Out.ids, hids]
    exact (Nat.sub_add_cancel hlen).symm
  · rintro a ⟨⟩

theorem links_update_of_next_eq {desc : ℕ → Desc} {i : ℕ} {d : Desc} (hd : d.next = (desc i).next) :
    links (update desc i d) = links desc := by
  funext k
  rcases eq_or_ne k i with rfl | hk
  · rw [links, Function.update_self, hd, links]
  · rw [links, Function.update_of_ne hk, links]

theorem links_allocIndirect (mem : ℕ → Desc) (n : ℕ) :
    ∃ j, Segment (links (allocIndirect n mem)) 0 (List.range n) j := by
  rw [List.range_eq_range']
  refine Segment.range' _ fun i _ hi ↦ ?_
  rw [links, allocIndirect, if_pos (by omega)]

theorem taken_indirect (hne : entries ≠ []) (hfree : vq.numFree ≠ 0)
    (hindirect : vq.indirect = true) (ha : vq.tables a = none) :
    Taken vq.toBooks ⟨data, entries, vq.freeHead, [], some a⟩
      (expose (place (reserve (pointTo vq a entries.length (allocIndirect entries.length mem)) 1 entries) entries
        (some (a, allocIndirect entries.length mem))) vq.freeHead data).toBooks := by
  obtain ⟨j, hseg⟩ := links_allocIndirect mem entries.length
  obtain ⟨-, -, hchain⟩ := addEntries_spec vq.dmaMap hseg List.nodup_range List.length_range
  have hlinks : links (pointTo vq a entries.length (allocIndirect entries.length mem)).desc = links vq.desc :=
    links_update_of_next_eq rfl
  refine ⟨hne, ⟨rfl, ?_, _, Function.update_self .., hchain⟩, ⟨rfl, ?_⟩, hlinks, fun i hi ↦ ?_,
    (Nat.sub_add_cancel (Nat.one_le_iff_ne_zero.mpr hfree)).symm, rfl, ?_, fun x hx ↦ ?_, rfl, ?_,
    fun hdma ↦ if_pos hdma, rfl⟩
  · exact congrArg Desc.content (Function.update_self vq.freeHead _ vq.desc)
  · exact congrFun hlinks.symm vq.freeHead
  · exact Function.update_of_ne (List.ne_of_not_mem_cons hi) ..
  · rintro x ⟨⟩
    exact ha
  · have hxa : x ≠ a := fun hxa ↦ hx (congrArg some hxa.symm)
    exact (Function.update_of_ne hxa ..).trans (Function.update_of_ne hxa ..)
  · rw [hindirect]
    rintro ⟨⟩

theorem Sound.freeHead_notMem (h : Sound b outs) (hfree : b.numFree ≠ 0) : ∀ o ∈ outs, b.freeHead ∉ o.ids := by
  obtain ⟨fl, j, hfl, hlen, hall⟩ := h.free
  have hnil : fl ≠ [] := List.ne_nil_of_length_pos (by omega)
  have hhead : b.freeHead ∈ fl := hfl.head_eq hnil ▸ List.head_mem hnil
  intro o ho hmem
  exact (List.nodup_append.mp (hall.nodup_iff.mpr List.nodup_range)).2.2 _ hhead _ (List.mem_flatMap_of_mem ho hmem) rfl

/-- If mapping fails the table stays allocated, and the first descriptor stays free. -/
theorem Sound.pointTo (h : Sound vq.toBooks outs) (hfree : vq.numFree ≠ 0) (ha : vq.tables a = none)
    (hdma : vq.dmaMap = true) (n : ℕ) (table : ℕ → Desc) :
    Sound (pointTo vq a n table).toBooks outs ∧
      ∀ o ∈ outs, Untouched vq.toBooks (pointTo vq a n table).toBooks o := by
  have hsame : ∀ o ∈ outs, Untouched vq.toBooks (Virtqueue.pointTo vq a n table).toBooks o := by
    intro o ho
    constructor
    · intro i hi
      refine Function.update_of_ne ?_ ..
      rintro rfl
      exact h.freeHead_notMem hfree o ho hi
    · intro x hx
      refine Function.update_of_ne ?_ ..
      rintro rfl
      exact h.table_ne_none ho hx ha
  have hlinks : links (Virtqueue.pointTo vq a n table).desc = links vq.desc := links_update_of_next_eq rfl
  refine ⟨⟨?_, fun o ho ↦ ?_, h.data, h.nodup, fun hdma' ↦ ?_, h.direct, h.mapped⟩, hsame⟩
  · rw [hlinks]
    exact h.free
  · obtain ⟨hne, hchain⟩ := h.held o ho
    exact ⟨hne, hchain.congr rfl (hsame o ho)⟩
  · exact absurd (hdma.symm.trans hdma') (by decide)

theorem kickJustInCase_toBooks (vq : VringVirtqueue τ) (env : AddEnv) :
    (kickJustInCase vq env).toBooks = vq.toBooks := by
  rw [kickJustInCase, vcaVirtqueueKick, vcaVirtqueueKickPrepare]
  dsimp only
  rw [vcaVirtqueueNotify]
  split_ifs <;> rfl

variable {outSgs inSgs : List (List Sg)} {env : AddEnv}

theorem addTail_cases {table : Option (ℕ × (ℕ → Desc))} {n : ℕ} {r : AddResult} {vq' : VringVirtqueue τ}
    (h : addTail vq outSgs inSgs data env table n = (r, vq')) :
    (r = .enospc ∧ vq.numFree < n ∧ vq'.toBooks = vq.toBooks) ∨
    ((r = .enomem ∨ r = .overrun) ∧ vq.dmaMap = true ∧ vq'.toBooks = vq.toBooks) ∨
    (r = .ok ∧ n ≤ vq.numFree ∧ vq'.toBooks = (expose (place (reserve vq n (entriesOf outSgs inSgs))
      (entriesOf outSgs inSgs) table) vq.freeHead data).toBooks) := by
  rw [addTail] at h
  split_ifs at h with hspace hout hmoved hdma
  · cases h
    exact Or.inl ⟨rfl, hspace, rfl⟩
  · cases h
    exact Or.inl ⟨rfl, hspace, rfl⟩
  · cases h
    exact Or.inr (Or.inl ⟨Or.inr rfl, hmoved.1, rfl⟩)
  · split at h
    · cases h
      exact Or.inr (Or.inl ⟨Or.inl rfl, hdma, rfl⟩)
    · cases h
      exact Or.inr (Or.inr ⟨rfl, Nat.not_lt.mp hspace, kickJustInCase_toBooks ..⟩)
  · cases h
    exact Or.inr (Or.inr ⟨rfl, Nat.not_lt.mp hspace, kickJustInCase_toBooks ..⟩)

theorem Sound.addTail_direct (h : Sound vq.toBooks outs) (hne : entriesOf outSgs inSgs ≠ []) {r : AddResult}
    {vq' : VringVirtqueue τ} (hadd : addTail vq outSgs inSgs data env none (entriesOf outSgs inSgs).length = (r, vq')) :
    (r = .ok ∧ ∃ o, o.token = data ∧ o.entries = entriesOf outSgs inSgs ∧ Taken vq.toBooks o vq'.toBooks) ∨
      (r ≠ .ok ∧ r ≠ .bug ∧ Sound vq'.toBooks outs ∧ vq'.toParams = vq.toParams ∧
        ∀ o ∈ outs, Untouched vq.toBooks vq'.toBooks o) := by
  rcases addTail_cases hadd with ⟨rfl, -, hbooks⟩ | ⟨hr, -, hbooks⟩ | ⟨rfl, hlen, hbooks⟩
  · exact Or.inr ⟨by decide, by decide, hbooks ▸ h, hbooks ▸ rfl, fun o _ ↦ hbooks ▸ untouched_refl _ o⟩
  · refine Or.inr ⟨?_, ?_, hbooks ▸ h, hbooks ▸ rfl, fun o _ ↦ hbooks ▸ untouched_refl _ o⟩
    · rcases hr with rfl | rfl <;> decide
    · rcases hr with rfl | rfl <;> decide
  · obtain ⟨rest, htaken⟩ := h.taken_direct hne hlen
    exact Or.inl ⟨rfl, _, rfl, rfl, hbooks ▸ htaken⟩

/-- What `virtqueue_add` does for callers that give it at least one entry and no more than the ring has descriptors.
A table comes from memory that is not in use. -/
theorem Sound.virtqueueAdd (h : Sound vq.toBooks outs) (hne : entriesOf outSgs inSgs ≠ [])
    (hnum : (entriesOf outSgs inSgs).length ≤ vq.num) (hfresh : ∀ p, env.table = some p → vq.tables p.1 = none)
    {r : AddResult} {vq' : VringVirtqueue τ} (hadd : vcaVirtqueueAddSgs vq outSgs inSgs data env = (r, vq')) :
    (r = .ok ∧ ∃ o, o.token = data ∧ o.entries = entriesOf outSgs inSgs ∧ Taken vq.toBooks o vq'.toBooks) ∨
      (r ≠ .ok ∧ r ≠ .bug ∧ Sound vq'.toBooks outs ∧ vq'.toParams = vq.toParams ∧
        ∀ o ∈ outs, Untouched vq.toBooks vq'.toBooks o) := by
  rw [vcaVirtqueueAddSgs, Virtqueue.virtqueueAdd] at hadd
  have hpos := List.length_pos_iff.mpr hne
  split_ifs at hadd with hbroken hbug hind
  · cases hadd
    exact Or.inr ⟨by decide, by decide, h, rfl, fun o _ ↦ untouched_refl _ o⟩
  · omega
  · obtain ⟨hindirect, -, hfree⟩ := hind
    cases htable : env.table with
    | none =>
      rw [htable] at hadd
      exact h.addTail_direct hne hadd
    | some p =>
      obtain ⟨a, mem⟩ := p
      rw [htable] at hadd
      have ha := hfresh _ htable
      rcases addTail_cases hadd with ⟨-, hlt, -⟩ | ⟨hr, hdma, hbooks⟩ | ⟨rfl, -, hbooks⟩
      · exact absurd (Nat.lt_one_iff.mp hlt) hfree
      · obtain ⟨hsound, hsame⟩ := h.pointTo hfree ha hdma (entriesOf outSgs inSgs).length
          (allocIndirect (entriesOf outSgs inSgs).length mem)
        refine Or.inr ⟨?_, ?_, hbooks ▸ hsound, hbooks ▸ rfl, hbooks ▸ hsame⟩
        · rcases hr with rfl | rfl <;> decide
        · rcases hr with rfl | rfl <;> decide
      · exact Or.inl ⟨rfl, _, rfl, rfl, hbooks ▸ taken_indirect hne hfree hindirect ha⟩
  · exact h.addTail_direct hne hadd

/-! ## Getting a buffer back -/

/-- A token in `data` is that of a buffer that is out. -/
theorem Sound.exists_out {i : ℕ} {t : τ} (h : Sound b outs) (ht : b.data i = some t) :
    ∃ o outs', outs.Perm (o :: outs') ∧ o.head = i ∧ o.token = t := by
  obtain ⟨o, ho, hi, ht⟩ := (h.data i t).mp ht
  obtain ⟨l, r, rfl⟩ := List.append_of_mem ho
  exact ⟨o, l ++ r, List.perm_middle, hi, ht⟩

/-- `vca_virtqueue_get_buf` returns, whatever the used ring says, and gives at most one buffer that is out back. -/
theorem Sound.getBuf (h : Sound vq.toBooks outs) (used : Used) :
    ∃ r vq', vcaVirtqueueGetBuf vq used = some (r, vq') ∧ vq'.toParams = vq.toParams ∧
      ((r = none ∧ Sound vq'.toBooks outs) ∨
        ∃ o outs' len, r = some (o.token, len) ∧ outs.Perm (o :: outs') ∧ Sound vq'.toBooks outs') := by
  rw [vcaVirtqueueGetBuf]
  dsimp only
  by_cases hidle : vq.broken = true ∨ moreUsed vq used = false
  · refine ⟨none, vq, ?_, rfl, Or.inl ⟨rfl, h⟩⟩
    rcases hidle with hbroken | hmore
    · rw [if_pos hbroken]
    · rw [hmore, Bool.not_false, if_pos rfl, ite_self]
  obtain ⟨hbroken, hmore⟩ := not_or.mp hidle
  rw [if_neg hbroken, Bool.eq_true_of_not_eq_false hmore, Bool.not_true, if_neg Bool.false_ne_true]
  split_ifs with hid
  · exact ⟨_, _, rfl, rfl, Or.inl ⟨rfl, h⟩⟩
  · cases hdata : vq.data (used.ring (vq.lastUsedIdx &&& (vq.num - 1))).id with
    | none => exact ⟨_, _, rfl, rfl, Or.inl ⟨rfl, h⟩⟩
    | some t =>
      obtain ⟨o, outs', hperm, hhead, rfl⟩ := h.exists_out hdata
      obtain ⟨a, hdetach, hsound, -⟩ := (h.perm hperm).detachBuf
      dsimp only
      rw [← hhead, hdetach]
      exact ⟨_, _, rfl, rfl, Or.inr ⟨o, outs', _, rfl, hperm, hsound⟩⟩

/-! ## Detaching -/

theorem firstUnused_eq_some {data : ℕ → Option τ} {n i k : ℕ} {t : τ} (h : firstUnused data n i = some (k, t)) :
    data k = some t := by
  induction n generalizing i with
  | zero => cases h
  | succ n ih =>
    rw [firstUnused] at h
    cases hi : data i with
    | none =>
      rw [hi] at h
      exact ih h
    | some t' =>
      rw [hi] at h
      cases h
      exact hi

theorem firstUnused_eq_none {data : ℕ → Option τ} {n i k : ℕ} (h : firstUnused data n i = none) (hik : i ≤ k)
    (hk : k < i + n) : data k = none := by
  induction n generalizing i with
  | zero => exact absurd hik (Nat.not_le.mpr hk)
  | succ n ih =>
    rw [firstUnused] at h
    cases hi : data i with
    | none =>
      rw [hi] at h
      rcases hik.eq_or_lt with rfl | hlt
      · exact hi
      · exact ih h hlt (by omega)
    | some t' =>
      rw [hi] at h
      cases h

theorem Sound.numFree_eq (h : Sound b []) : b.numFree = b.num := by
  obtain ⟨fl, j, -, hlen, hall⟩ := h.free
  rw [← hlen, ← List.length_range (n := b.num), ← hall.length_eq, List.flatMap_nil, List.append_nil]

/-- `vca_virtqueue_detach_unused_buf` gives a buffer that is out back; if there is none the `BUG_ON` holds still. -/
theorem Sound.detachUnusedBuf (h : Sound vq.toBooks outs) :
    (outs = [] ∧ vcaVirtqueueDetachUnusedBuf vq = some (.null vq)) ∨
      ∃ o outs' vq', outs.Perm (o :: outs') ∧ vcaVirtqueueDetachUnusedBuf vq = some (.buf o.token vq') ∧
        vq'.toParams = vq.toParams ∧ Sound vq'.toBooks outs' := by
  rw [vcaVirtqueueDetachUnusedBuf]
  cases hfirst : firstUnused vq.data vq.num 0 with
  | none =>
    obtain rfl : outs = [] := by
      refine List.eq_nil_iff_forall_not_mem.mpr fun o ho ↦ ?_
      obtain ⟨l, r, rfl⟩ := List.append_of_mem ho
      obtain ⟨-, hlt, -⟩ := (h.perm List.perm_middle).disjoint
      have hnone := firstUnused_eq_none hfirst (Nat.zero_le o.head)
        (by rw [Nat.zero_add]; exact hlt _ List.mem_cons_self)
      rw [(h.data o.head o.token).mpr ⟨o, ho, rfl, rfl⟩] at hnone
      cases hnone
    refine Or.inl ⟨rfl, ?_⟩
    dsimp only
    rw [if_pos h.numFree_eq]
  | some p =>
    obtain ⟨i, t⟩ := p
    obtain ⟨o, outs', hperm, rfl, rfl⟩ := h.exists_out (firstUnused_eq_some hfirst)
    obtain ⟨a, hdetach, hsound, -⟩ := (h.perm hperm).detachBuf
    dsimp only
    rw [hdetach]
    exact Or.inr ⟨o, outs', _, hperm, rfl, rfl, hsound⟩

/-! ## A new queue -/

theorem sound_vcaVringNewVirtqueue {num : ℕ} {callback indirect event dmaMap : Bool}
    (h : vcaVringNewVirtqueue num callback indirect event dmaMap = some vq) : Sound vq.toBooks [] := by
  rw [vcaVringNewVirtqueue] at h
  by_cases hnum : num &&& (num - 1) ≠ 0
  · rw [if_pos hnum] at h
    cases h
  rw [if_neg hnum] at h
  cases h
  refine ⟨?_, fun o ho ↦ absurd ho List.not_mem_nil, fun i t ↦ ?_, List.nodup_nil, ?_,
    fun _ o ho ↦ absurd ho List.not_mem_nil, fun _ _ ↦ List.Perm.refl _⟩
  · obtain ⟨j, hseg⟩ := Segment.range' (links fun i ↦ ⟨0, 0, 0, if i < num - 1 then i + 1 else 0⟩) (n := num)
      (i := 0) fun a _ ha ↦ if_pos (by omega)
    rw [← List.range_eq_range'] at hseg
    exact ⟨List.range num, j, hseg, List.length_range, by rw [List.flatMap_nil, List.append_nil]⟩
  · refine iff_of_false (by simp) ?_
    rintro ⟨o, ho, -⟩
    exact absurd ho List.not_mem_nil
  · intro _ a ha
    exact absurd rfl ha

end Vcass.Virtio.Virtqueue
