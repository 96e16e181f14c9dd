import Vcass.Lib.Segment
import Vcass.Virtio.Virtqueue

/-!
# Chains of descriptors

A chain in a descriptor table, or in an indirect table, is a segment of the links whose descriptors say what a list
of entries says: the address and the length of each, and flags that mark all but the last one as continued. The loops
of `virtqueue_add` make such a chain out of the cells that they walk over (`addEntries_spec`), and they touch no link.
The loop of `detach_buf` walks over a chain and ends at its last descriptor (`Chain.detachLoop`).
-/

namespace Vcass.Virtio.Virtqueue

open Function (update)

/-- The links of a table. -/
def links (desc : ℕ → Desc) : ℕ → ℕ := fun i ↦ (desc i).next

/-- What a descriptor says, but for its link. -/
def Desc.content (d : Desc) : ℕ × ℕ × ℕ := (d.addr, d.len, d.flags)

/-- What the descriptor of an entry says if another one follows. -/
def Entry.content (dmaMap : Bool) (e : Entry) : ℕ × ℕ × ℕ := (e.addr dmaMap, e.sg.length, e.flags)

/-- What the descriptor of the last entry says. -/
def Entry.lastContent (dmaMap : Bool) (e : Entry) : ℕ × ℕ × ℕ :=
  (e.addr dmaMap, e.sg.length, clearFlag e.flags descFNext)

/-- What the descriptors of a list of entries say. -/
def chainContents (dmaMap : Bool) : List Entry → List (ℕ × ℕ × ℕ)
  | [] => []
  | [e] => [e.lastContent dmaMap]
  | e :: e' :: es => e.content dmaMap :: chainContents dmaMap (e' :: es)

/-- The descriptors `ids`, linked from `i` on, are the chain of the entries. -/
structure Chain (dmaMap : Bool) (desc : ℕ → Desc) (i : ℕ) (ids : List ℕ) (entries : List Entry) : Prop where
  contents : ids.map (Desc.content ∘ desc) = chainContents dmaMap entries
  linked : ∃ j, Segment (links desc) i ids j

variable {dmaMap : Bool} {desc desc' : ℕ → Desc} {i j n : ℕ} {ids : List ℕ} {entries : List Entry} {e : Entry}

@[simp] theorem length_chainContents : (chainContents dmaMap entries).length = entries.length := by
  induction entries with
  | nil => rfl
  | cons e es ih =>
    cases es with
    | nil => rfl
    | cons e' es => rw [chainContents, List.length_cons, ih, ← List.length_cons]

theorem chainContents_concat (es : List Entry) (e : Entry) :
    chainContents dmaMap (es ++ [e]) = es.map (Entry.content dmaMap) ++ [e.lastContent dmaMap] := by
  induction es with
  | nil => rfl
  | cons e' es ih =>
    obtain ⟨e'', es', hes⟩ := List.exists_cons_of_ne_nil (List.append_ne_nil_of_right_ne_nil es (List.cons_ne_nil e []))
    rw [List.cons_append, hes, chainContents, ← hes, ih]
    rfl

theorem Chain.length_eq (h : Chain dmaMap desc i ids entries) : ids.length = entries.length := by
  have hlen := congrArg List.length h.contents
  rwa [List.length_map, length_chainContents] at hlen

theorem Chain.congr (h : Chain dmaMap desc i ids entries) (hdesc : ∀ a ∈ ids, desc' a = desc a) :
    Chain dmaMap desc' i ids entries := by
  obtain ⟨j, hj⟩ := h.linked
  refine ⟨?_, j, (Segment.congr fun a ha ↦ congrArg Desc.next (hdesc a ha)).mpr hj⟩
  rw [← h.contents]
  exact List.map_congr_left fun a ha ↦ congrArg Desc.content (hdesc a ha)

/-! ## Making a chain -/

theorem addRound_desc_self (c : Cursor) (e : Entry) : (addRound dmaMap c e).desc c.i =
    { c.desc c.i with flags := e.flags, addr := e.addr dmaMap, len := e.sg.length } :=
  Function.update_self ..

theorem addRound_desc_of_ne (c : Cursor) (e : Entry) {a : ℕ} (ha : a ≠ c.i) :
    (addRound dmaMap c e).desc a = c.desc a :=
  Function.update_of_ne ha ..

@[simp] theorem links_addRound (c : Cursor) (e : Entry) : links (addRound dmaMap c e).desc = links c.desc := by
  funext a
  rw [links, links]
  rcases eq_or_ne a c.i with rfl | hne
  · rw [addRound_desc_self]
  · rw [addRound_desc_of_ne c e hne]

theorem finish_eq {c : Cursor} {p : ℕ} (hp : c.prev = some p) :
    c.finish = update c.desc p { c.desc p with flags := clearFlag (c.desc p).flags descFNext } := by
  rw [Cursor.finish, hp]

@[simp] theorem links_finish (c : Cursor) : links c.finish = links c.desc := by
  funext a
  rw [links, links]
  cases hp : c.prev with
  | none => rw [Cursor.finish, hp]
  | some p =>
    rw [finish_eq hp]
    rcases eq_or_ne a p with rfl | hne
    · rw [Function.update_self]
    · rw [Function.update_of_ne hne]

theorem links_foldl (c : Cursor) (entries : List Entry) :
    links (entries.foldl (addRound dmaMap) c).desc = links c.desc := by
  induction entries generalizing c with
  | nil => rfl
  | cons e es ih => rw [List.foldl_cons, ih, links_addRound]

@[simp] theorem links_addEntries : links (addEntries dmaMap desc i entries).finish = links desc := by
  rw [links_finish, addEntries, links_foldl]

variable (dmaMap) in
theorem foldl_addRound {c : Cursor} (hseg : Segment (links c.desc) c.i ids j) (hnodup : ids.Nodup)
    (hlen : ids.length = entries.length) :
    (entries.foldl (addRound dmaMap) c).i = j ∧
      (entries.foldl (addRound dmaMap) c).prev = ids.getLast?.or c.prev ∧
      (∀ a ∉ ids, (entries.foldl (addRound dmaMap) c).desc a = c.desc a) ∧
      ids.map (Desc.content ∘ (entries.foldl (addRound dmaMap) c).desc) = entries.map (Entry.content dmaMap) := by
  induction entries generalizing c ids with
  | nil =>
    obtain rfl : ids = [] := List.length_eq_zero_iff.mp hlen
    exact ⟨hseg, rfl, fun _ _ ↦ rfl, rfl⟩
  | cons e es ih =>
    obtain ⟨a, ids, rfl⟩ := List.exists_cons_of_length_pos (by rw [hlen]; exact Nat.succ_pos _)
    obtain ⟨rfl, hseg⟩ := hseg
    obtain ⟨ha, hnodup⟩ := List.nodup_cons.mp hnodup
    obtain ⟨hi, hprev, houtside, hcontents⟩ := ih (c := addRound dmaMap c e) ((links_addRound c e).symm ▸ hseg) hnodup
      (Nat.succ.inj hlen)
    rw [List.foldl_cons]
    refine ⟨hi, ?_, fun b hb ↦ ?_, ?_⟩
    · rw [hprev]
      cases ids with
      | nil => rfl
      | cons b ids => rfl
    · obtain ⟨hne, hb⟩ := not_or.mp (mt List.mem_cons.mpr hb)
      rw [houtside b hb, addRound_desc_of_ne c e hne]
    · rw [List.map_cons, List.map_cons, hcontents, Function.comp_apply, houtside _ ha, addRound_desc_self]
      rfl

variable (dmaMap) in
/-- The cells from `i` on become the chain of the entries, and no other cell changes. -/
theorem addEntries_spec (hseg : Segment (links desc) i ids j) (hnodup : ids.Nodup)
    (hlen : ids.length = entries.length) :
    (addEntries dmaMap desc i entries).i = j ∧
      (∀ a ∉ ids, (addEntries dmaMap desc i entries).finish a = desc a) ∧
      Chain dmaMap (addEntries dmaMap desc i entries).finish i ids entries := by
  obtain ⟨hi, hprev, houtside, hcontents⟩ := foldl_addRound dmaMap (c := ⟨desc, i, none⟩) hseg hnodup hlen
  have hlinked : ∃ j, Segment (links (addEntries dmaMap desc i entries).finish) i ids j :=
    ⟨j, links_addEntries.symm ▸ hseg⟩
  rcases List.eq_nil_or_concat' ids with rfl | ⟨l, a, rfl⟩
  · obtain rfl : entries = [] := List.length_eq_zero_iff.mp hlen.symm
    exact ⟨hi, fun _ _ ↦ rfl, rfl, hlinked⟩
  · obtain ⟨es, e, rfl⟩ := (List.eq_nil_or_concat' entries).resolve_left fun h ↦ by simp [h] at hlen
    rw [← addEntries] at hi hprev houtside hcontents
    set c := addEntries dmaMap desc i (es ++ [e]) with hc
    rw [List.getLast?_concat, Option.some_or] at hprev
    rw [List.map_append, List.map_append] at hcontents
    obtain ⟨hes, hlast⟩ := List.append_inj' hcontents rfl
    have hcontent : (c.desc a).content = e.content dmaMap := (List.cons.inj hlast).1
    have ha : a ∉ l := fun h ↦ (List.nodup_append.mp hnodup).2.2 a h a (List.mem_singleton_self a) rfl
    have hfinish := finish_eq hprev
    refine ⟨hi, fun b hb ↦ ?_, ?_, hlinked⟩
    · have hne : b ≠ a := by
        rintro rfl
        exact hb (List.mem_append_right _ (List.mem_singleton_self b))
      rw [hfinish, Function.update_of_ne hne, houtside b hb]
    · have hl : l.map (Desc.content ∘ c.finish) = es.map (Entry.content dmaMap) := by
        rw [← hes, hfinish]
        refine List.map_congr_left fun b hb ↦ ?_
        rw [Function.comp_apply, Function.update_of_ne (ne_of_mem_of_not_mem hb ha)]
        rfl
      have hcleared : (c.finish a).content = e.lastContent dmaMap := by
        rw [hfinish, Function.update_self]
        injection hcontent with haddr hrest
        injection hrest with hlen hflags
        rw [Desc.content, Entry.lastContent, haddr, hlen, hflags]
      rw [List.map_append, hl, List.map_singleton, Function.comp_apply, hcleared, chainContents_concat]

/-! ## Walking over a chain -/

variable {fuel : ℕ} {es : List Entry}

theorem flags_and_next (e : Entry) : e.flags &&& descFNext ≠ 0 := by
  rw [Entry.flags]
  split_ifs <;> decide

theorem clearFlag_and_next (e : Entry) : clearFlag e.flags descFNext &&& descFNext = 0 := by
  rw [Entry.flags]
  split_ifs <;> decide

theorem flags_and_write (e : Entry) : decide (e.flags &&& descFWrite ≠ 0) = e.write := by
  rw [Entry.flags]
  cases e.write <;> decide

theorem clearFlag_and_write (e : Entry) : decide (clearFlag e.flags descFNext &&& descFWrite ≠ 0) = e.write := by
  rw [Entry.flags]
  cases e.write <;> decide

theorem flags_and_indirect (e : Entry) : e.flags &&& descFIndirect = 0 := by
  rw [Entry.flags]
  split_ifs <;> decide

theorem clearFlag_and_indirect (e : Entry) : clearFlag e.flags descFNext &&& descFIndirect = 0 := by
  rw [Entry.flags]
  split_ifs <;> decide

theorem Desc.content_eq {d : Desc} {addr len flags : ℕ} :
    d.content = (addr, len, flags) ↔ d.addr = addr ∧ d.len = len ∧ d.flags = flags := by
  rw [Desc.content, Prod.mk_inj, Prod.mk_inj]

theorem chain_singleton : Chain dmaMap desc i ids [e] ↔ ids = [i] ∧ (desc i).content = e.lastContent dmaMap := by
  constructor
  · intro h
    obtain ⟨a, rfl⟩ := List.length_eq_one_iff.mp h.length_eq
    obtain ⟨j, rfl, -⟩ := h.linked
    exact ⟨rfl, (List.cons.inj h.contents).1⟩
  · rintro ⟨rfl, h⟩
    exact ⟨congrArg (· :: []) h, _, rfl, rfl⟩

theorem chain_cons {e' : Entry} : Chain dmaMap desc i ids (e :: e' :: es) ↔
    ∃ ids', ids = i :: ids' ∧ (desc i).content = e.content dmaMap ∧
      Chain dmaMap desc (desc i).next ids' (e' :: es) := by
  constructor
  · intro h
    obtain ⟨a, ids', rfl⟩ := List.exists_cons_of_length_pos (by rw [h.length_eq]; exact Nat.succ_pos _)
    obtain ⟨j, rfl, hj⟩ := h.linked
    obtain ⟨hcontent, hcontents⟩ := List.cons.inj h.contents
    exact ⟨ids', rfl, hcontent, hcontents, j, hj⟩
  · rintro ⟨ids', rfl, hcontent, hcontents, j, hj⟩
    exact ⟨congrArg₂ List.cons hcontent hcontents, j, rfl, hj⟩

theorem Chain.head (h : Chain dmaMap desc i ids (e :: es)) : (desc i).flags &&& descFIndirect = 0 := by
  cases es with
  | nil =>
    obtain ⟨-, -, hflags⟩ := Desc.content_eq.mp (chain_singleton.mp h).2
    rw [hflags, clearFlag_and_indirect]
  | cons e' es =>
    obtain ⟨-, -, hcontent, -⟩ := chain_cons.mp h
    obtain ⟨-, -, hflags⟩ := Desc.content_eq.mp hcontent
    rw [hflags, flags_and_indirect]

/-- What is unmapped for a chain is what was mapped for the entries. -/
theorem Chain.map_unmapSingle (h : Chain true desc i ids entries) :
    ids.map (unmapSingle ∘ desc) = entries.map mappingOf := by
  induction entries generalizing i ids with
  | nil =>
    obtain rfl : ids = [] := List.length_eq_zero_iff.mp h.length_eq
    rfl
  | cons e es ih =>
    cases es with
    | nil =>
      obtain ⟨rfl, hcontent⟩ := chain_singleton.mp h
      obtain ⟨haddr, hlen, hflags⟩ := Desc.content_eq.mp hcontent
      rw [List.map_singleton, Function.comp_apply, unmapSingle, haddr, hlen, hflags, clearFlag_and_write]
      rfl
    | cons e' es =>
      obtain ⟨ids', rfl, hcontent, htail⟩ := chain_cons.mp h
      obtain ⟨haddr, hlen, hflags⟩ := Desc.content_eq.mp hcontent
      rw [List.map_cons, Function.comp_apply, unmapSingle, haddr, hlen, hflags, flags_and_write, ih htail]
      rfl

/-- The loop of `detach_buf` goes to the end of a chain, counts the descriptors before it and unmaps them. -/
theorem Chain.detachLoop (h : Chain dmaMap desc i ids (e :: es)) (hfuel : ids.length ≤ fuel) (numFree : ℕ)
    (unmaps : List Mapping) :
    ∃ l a, ids = l ++ [a] ∧ detachLoop dmaMap desc fuel i numFree unmaps =
      some (a, numFree + l.length, if dmaMap then unmaps ++ l.map (unmapSingle ∘ desc) else unmaps) := by
  induction es generalizing e i ids fuel numFree unmaps with
  | nil =>
    obtain ⟨rfl, hcontent⟩ := chain_singleton.mp h
    obtain ⟨-, -, hflags⟩ := Desc.content_eq.mp hcontent
    obtain ⟨fuel, rfl⟩ := Nat.exists_eq_add_one_of_ne_zero (Nat.ne_of_gt hfuel)
    refine ⟨[], i, rfl, ?_⟩
    rw [Virtqueue.detachLoop, if_neg (by rw [hflags, clearFlag_and_next]; exact not_not_intro rfl)]
    simp
  | cons e' es ih =>
    obtain ⟨ids', rfl, hcontent, htail⟩ := chain_cons.mp h
    obtain ⟨-, -, hflags⟩ := Desc.content_eq.mp hcontent
    obtain ⟨fuel, rfl⟩ := Nat.exists_eq_add_one_of_ne_zero (Nat.ne_of_gt (Nat.lt_of_lt_of_le (Nat.succ_pos _) hfuel))
    obtain ⟨l, a, rfl, hloop⟩ := ih htail (Nat.le_of_succ_le_succ hfuel) (numFree + 1)
      (if dmaMap then unmaps ++ [unmapSingle (desc i)] else unmaps)
    refine ⟨i :: l, a, rfl, ?_⟩
    rw [Virtqueue.detachLoop, if_pos (by rw [hflags]; exact flags_and_next e), hloop]
    cases dmaMap with
    | false => simp [Nat.add_assoc, Nat.add_comm 1]
    | true => simp [Nat.add_assoc, Nat.add_comm 1]

end Vcass.Virtio.Virtqueue
