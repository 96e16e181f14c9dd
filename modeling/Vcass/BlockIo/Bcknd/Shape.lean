import Vcass.BlockIo.Bcknd.Trace

/-!
# Block I/O backend: the shape of a group

`vcablk_bcknd_disk_request_get_info` looks at the first, the second and the last entry of a group to
tell its SYNC entries from its data. The first half of this file says what it reports for any group,
the second half what follows for the groups a frontend publishes: an optional SYNC entry, data, an
optional SYNC entry.
-/

namespace Vcass.BlockIo.Bcknd

variable {g data : List VcablkRequest} {r : VcablkRequest} {rest : List VcablkRequest} {cookie : ℕ}

/-! ## What the analysis of a group reports -/

theorem getInfo_cookie (r : VcablkRequest) (rest : List VcablkRequest) :
    (vcablkBckndDiskRequestGetInfo (r :: rest)).2.cookie = r.cookie := by
  unfold vcablkBckndDiskRequestGetInfo
  dsimp only
  split
  · cases rest with
    | nil => rfl
    | cons n rest => dsimp only; split <;> rfl
  · split <;> rfl

theorem getInfo_syncBefore (r : VcablkRequest) (rest : List VcablkRequest) :
    (vcablkBckndDiskRequestGetInfo (r :: rest)).2.syncBefore =
      (r.requestType == .sync && !rest.isEmpty) := by
  unfold vcablkBckndDiskRequestGetInfo
  dsimp only
  split
  case isTrue h =>
    rw [h]
    cases rest with
    | nil => rfl
    | cons n rest => dsimp only; split <;> rfl
  case isFalse h =>
    rw [beq_false_of_ne h]
    split <;> rfl

theorem getInfo_syncAfter (h : g.getLast? = some r) :
    (vcablkBckndDiskRequestGetInfo g).2.syncAfter = (r.requestType == .sync) := by
  obtain ⟨r', rest, rfl⟩ : ∃ r' rest, g = r' :: rest := by
    cases g with
    | nil => simp at h
    | cons r' rest => exact ⟨r', rest, rfl⟩
  rw [List.getLast?_cons, Option.some_inj, ← List.getLastD_eq_getLast?] at h
  subst h
  unfold vcablkBckndDiskRequestGetInfo
  dsimp only
  split
  · cases rest with
    | nil => rfl
    | cons n rest => dsimp only; split <;> rfl
  · split <;> rfl

theorem getInfo_type (r : VcablkRequest) (rest : List VcablkRequest) :
    (vcablkBckndDiskRequestGetInfo (r :: rest)).2.type =
      if r.requestType = .sync then (rest.headD r).requestType else r.requestType := by
  unfold vcablkBckndDiskRequestGetInfo
  dsimp only
  split
  case isTrue h =>
    cases rest with
    | nil => exact h.symm
    | cons n rest => dsimp only; split <;> simp_all
  case isFalse h => split <;> simp_all

/-! ## The groups the frontend publishes -/

/-- A group with one cookie: an optional leading SYNC entry, the data entries, none of them empty,
and an optional trailing SYNC entry. -/
structure Shaped (cookie : ℕ) (g lead data trail : List VcablkRequest) : Prop where
  parts : g = lead ++ data ++ trail
  ne_nil : g ≠ []
  lead_le : lead.length ≤ 1
  trail_le : trail.length ≤ 1
  sync : ∀ r ∈ lead ++ trail, r.requestType = .sync
  data : ∀ r ∈ data, (r.requestType = .read ∨ r.requestType = .write) ∧ r.sectorsNum ≠ 0
  cookie : ∀ r ∈ g, r.cookie = cookie

variable {lead trail : List VcablkRequest}

theorem Shaped.groupCookie (h : Shaped cookie g lead data trail) : groupCookie g = cookie := by
  have hck := h.cookie
  cases g with
  | nil => exact absurd rfl h.ne_nil
  | cons r rest =>
    rw [Bcknd.groupCookie, getInfo_cookie]
    exact hck r List.mem_cons_self

theorem Shaped.not_sync (h : Shaped cookie g lead data trail) (hr : r ∈ data) :
    r.requestType ≠ .sync := by
  rcases (h.data r hr).1 with h' | h' <;> simp [h']

theorem length_le_one {α : Type} {l : List α} (h : l.length ≤ 1) : l = [] ∨ ∃ x, l = [x] := by
  match l with
  | [] => exact .inl rfl
  | [x] => exact .inr ⟨x, rfl⟩
  | _ :: _ :: _ => simp at h

theorem Shaped.info (h : Shaped cookie g lead data trail) (hd : data ≠ []) :
    (vcablkBckndDiskRequestGetInfo g).2.syncBefore = !lead.isEmpty ∧
      (vcablkBckndDiskRequestGetInfo g).2.syncAfter = !trail.isEmpty ∧
      (vcablkBckndDiskRequestGetInfo g).2.type = (data.head hd).requestType := by
  obtain ⟨d, ds, rfl⟩ := List.exists_cons_of_ne_nil hd
  have hd0 : d.requestType ≠ .sync := h.not_sync List.mem_cons_self
  have hlast : (ds.getLastD d).requestType ≠ .sync :=
    h.not_sync (List.getLastD_mem_cons ..)
  have hafter : (vcablkBckndDiskRequestGetInfo g).2.syncAfter = !trail.isEmpty := by
    rcases length_le_one h.trail_le with rfl | ⟨t, rfl⟩
    · rw [getInfo_syncAfter (r := ds.getLastD d)]
      · exact beq_false_of_ne hlast
      · rw [h.parts, List.append_nil, List.getLast?_append, List.getLast?_cons,
          ← List.getLastD_eq_getLast?]
        rfl
    · rw [getInfo_syncAfter (r := t)]
      · rw [h.sync t (by simp)]
        rfl
      · rw [h.parts, List.getLast?_append]
        rfl
  rcases length_le_one h.lead_le with rfl | ⟨l, rfl⟩
  · rw [show g = d :: (ds ++ trail) from h.parts] at hafter ⊢
    refine ⟨?_, hafter, ?_⟩
    · rw [getInfo_syncBefore, beq_false_of_ne hd0]
      rfl
    · rw [getInfo_type, if_neg hd0]
      rfl
  · have hl : l.requestType = .sync := h.sync l (by simp)
    rw [show g = l :: (d :: (ds ++ trail)) from h.parts] at hafter ⊢
    refine ⟨?_, hafter, ?_⟩
    · rw [getInfo_syncBefore, hl]
      rfl
    · rw [getInfo_type, if_pos hl]
      rfl

theorem Shaped.groupEntries_eq (h : Shaped cookie g lead data trail) (hd : data ≠ [])
    (herr : (vcablkBckndDiskRequestGetInfo g).1 = 0) :
    groupEntries g = entries ((data.head hd).requestType = .write) cookie (!trail.isEmpty) data := by
  obtain ⟨hbefore, hafter, htype⟩ := h.info hd
  have hck : (vcablkBckndDiskRequestGetInfo g).2.cookie = cookie := h.groupCookie
  rw [groupEntries]
  generalize vcablkBckndDiskRequestGetInfo g = result at *
  obtain ⟨err, info⟩ := result
  dsimp only at *
  rw [if_neg (not_not.mpr herr), dataEntries, hbefore, hafter, htype, hck, h.parts]
  congr 1
  rcases length_le_one h.lead_le with rfl | ⟨l, rfl⟩ <;>
    rcases length_le_one h.trail_le with rfl | ⟨t, rfl⟩ <;> simp

theorem chunks_ne_nil {write flush : Bool} {ck : ℤ} {fuel left sector off : ℕ} (hfuel : fuel ≠ 0)
    (hleft : left ≠ 0) : chunks write ck flush fuel left sector off ≠ [] := by
  cases fuel with
  | zero => exact absurd rfl hfuel
  | succ fuel => simp [chunks, hleft]

theorem entries_full {write flush : Bool} {ck : ℕ} {rs : List VcablkRequest}
    (h : ∀ r ∈ rs, r.sectorsNum ≠ 0) : ∀ e ∈ entries write ck flush rs, e.chunks ≠ [] := by
  induction rs with
  | nil => simp [entries]
  | cons r rs ih =>
    intro e he
    rw [entries, List.mem_cons] at he
    rcases he with rfl | he
    · exact chunks_ne_nil (h r List.mem_cons_self) (h r List.mem_cons_self)
    · exact ih (fun r' hr' ↦ h r' (List.mem_cons_of_mem _ hr')) e he

/-- No entry of the group is empty. -/
def Full (g : List VcablkRequest) : Prop := ∀ e ∈ groupEntries g, e.chunks ≠ []

theorem Shaped.sync_only (h : Shaped cookie g lead [] trail) :
    (vcablkBckndDiskRequestGetInfo g).1 = 0 ∧ groupEntries g = [] := by
  have hparts := h.parts
  have hck := h.cookie
  rcases length_le_one h.lead_le with rfl | ⟨l, rfl⟩ <;>
    rcases length_le_one h.trail_le with rfl | ⟨t, rfl⟩
  · exact absurd hparts h.ne_nil
  · have ht := h.sync t (by simp)
    subst hparts
    simp [groupEntries, dataEntries, entries, vcablkBckndDiskRequestGetInfo, ht]
  · have hl := h.sync l (by simp)
    subst hparts
    simp [groupEntries, dataEntries, entries, vcablkBckndDiskRequestGetInfo, hl]
  · have hl := h.sync l (by simp)
    have ht := h.sync t (by simp)
    have hlt : l.cookie = t.cookie := (hck l (by simp [hparts])).trans (hck t (by simp [hparts])).symm
    subst hparts
    simp [groupEntries, dataEntries, entries, vcablkBckndDiskRequestGetInfo, checkConsistency, hl,
      ht, hlt]

theorem Shaped.full (h : Shaped cookie g lead data trail) : Full g := by
  by_cases hd : data = []
  · subst hd
    simp [Full, h.sync_only.2]
  · by_cases herr : (vcablkBckndDiskRequestGetInfo g).1 = 0
    · rw [Full, h.groupEntries_eq hd herr]
      exact entries_full fun r hr ↦ (h.data r hr).2
    · simp [Full, groupEntries, herr]

end Vcass.BlockIo.Bcknd
