import Vcass.Virtio.HostRing

/-!
# The walk over a chain

The driver's memory may say anything while `__vringh_iov` walks over it. Every round either moves into an indirect
table, which is possible once until the walk is back, or counts a descriptor, of which there are at most `num`. So the
loop ends after at most `2 * num + 2` rounds. It reads inside of the table that it walks over, except for the first
descriptor of an indirect table whose length is zero, and writes inside of its vectors.
-/

namespace Vcass.Virtio.HostRing

open Virtqueue

/-- The vector has room for its elements. -/
def Fits (iov : Option Kiov) : Prop := ∀ k, iov = some k → k.iov.length ≤ k.maxNum

/-- How many elements a vector has. -/
def size (iov : Option Kiov) : ℕ := (iov.map fun k ↦ k.iov.length).getD 0

/-- How many elements the vectors have. -/
def Walk.size (w : Walk) : ℕ := HostRing.size (w.vec false) + HostRing.size (w.vec true)

/-- The descriptor is in its table, or the first one of an indirect table. -/
def Read.Inside (num : ℕ) (x : Read) : Prop := (x.table = none → x.i < num) ∧ (x.i < x.descMax ∨ x.i = 0)

/-- The rounds that are left. -/
def Walk.left (num : ℕ) (w : Walk) : ℕ := 2 * (num - w.count) + if w.upNext = -1 then 2 else 1

/-- The walk stays in its tables and its vectors, which had `base` elements before. -/
structure Walk.Safe (num base : ℕ) (w : Walk) : Prop where
  count_le : w.count ≤ num
  ring : w.table = none → w.descMax = num ∧ w.i < num
  inside : w.i < w.descMax ∨ w.i = 0
  fits : ∀ b, Fits (w.vec b)
  size_eq : w.size = w.count + base

/-- What holds behind a round. -/
def Round.Safe (num base : ℕ) (w : Walk) : Round → Prop
  | .go w' => w'.Safe num base ∧ w'.left num < w.left num
  | .done w' => (∀ b, Fits (w'.vec b)) ∧ w'.size ≤ num + base
  | .fail _ w' => (∀ b, Fits (w'.vec b)) ∧ w'.size ≤ num + base

variable {num base : ℕ} {w w' : Walk} {desc : Desc} {allocOk : Bool} {mem : Memory} {iov iov' : Kiov} {kvec : Kvec}

theorem Kiov.append_spec (h : iov.append kvec allocOk = some iov') (hfits : iov.iov.length ≤ iov.maxNum) :
    iov'.iov = iov.iov ++ [kvec] ∧ iov'.i = iov.i ∧ iov'.iov.length ≤ iov'.maxNum := by
  obtain ⟨iov₁, hroom, rfl⟩ := Option.map_eq_some_iff.mp h
  rw [List.length_append, List.length_singleton]
  split_ifs at hroom with hfull
  · rw [resizeIovec] at hroom
    obtain ⟨-, hroom⟩ := Option.ite_none_right_eq_some.mp hroom
    cases hroom
    exact ⟨rfl, rfl, by dsimp only; split_ifs <;> omega⟩
  · cases hroom
    exact ⟨rfl, rfl, Nat.lt_of_le_of_ne hfits hfull⟩

@[simp] theorem Walk.vec_setVec_self (w : Walk) (b : Bool) (iov : Kiov) : (w.setVec b iov).vec b = some iov := by
  cases b <;> rfl

theorem Walk.vec_setVec_of_ne (w : Walk) {b c : Bool} (hbc : c ≠ b) (iov : Kiov) :
    (w.setVec b iov).vec c = w.vec c := by
  cases b <;> cases c <;> first | rfl | exact absurd rfl hbc

@[simp] theorem Walk.setVec_count (w : Walk) (b : Bool) (iov : Kiov) : (w.setVec b iov).count = w.count := by
  cases b <;> rfl

@[simp] theorem Walk.setVec_table (w : Walk) (b : Bool) (iov : Kiov) : (w.setVec b iov).table = w.table := by
  cases b <;> rfl

@[simp] theorem Walk.setVec_descMax (w : Walk) (b : Bool) (iov : Kiov) : (w.setVec b iov).descMax = w.descMax := by
  cases b <;> rfl

@[simp] theorem Walk.setVec_upNext (w : Walk) (b : Bool) (iov : Kiov) : (w.setVec b iov).upNext = w.upNext := by
  cases b <;> rfl

theorem Walk.size_setVec {b : Bool} (hiov : w.vec b = some iov) (hlen : iov'.iov.length = iov.iov.length + 1) :
    (w.setVec b iov').size = w.size + 1 := by
  have hself : HostRing.size (w.vec b) = iov.iov.length := by rw [hiov]; rfl
  have hnew : HostRing.size ((w.setVec b iov').vec b) = iov.iov.length + 1 := by rw [w.vec_setVec_self]; exact hlen
  rw [Walk.size, Walk.size]
  cases b with
  | false =>
    rw [hnew, hself, w.vec_setVec_of_ne (by decide)]
    omega
  | true =>
    rw [hnew, hself, w.vec_setVec_of_ne (by decide)]
    omega

theorem Walk.Safe.size_le (h : w.Safe num base) : w.size ≤ num + base :=
  h.size_eq ▸ Nat.add_le_add_right h.count_le base

theorem Walk.Safe.moveToIndirect (h : w.Safe num base) : (moveToIndirect desc w).Safe num base w := by
  rw [HostRing.moveToIndirect]
  split_ifs with hup hlen hnext
  · exact ⟨h.fits, h.size_le⟩
  · exact ⟨h.fits, h.size_le⟩
  all_goals
    refine ⟨⟨h.count_le, ?_, Or.inr rfl, h.fits, h.size_eq⟩, ?_⟩
    · rintro ⟨⟩
    · rw [Walk.left, Walk.left, if_pos (not_not.mp hup), if_neg (by dsimp only; omega)]
      exact Nat.add_lt_add_left Nat.one_lt_two _

theorem safe_checkIndex (hcount : w'.count ≤ num) (hring : w'.table = none → w'.descMax = num)
    (hfits : ∀ b, Fits (w'.vec b)) (hsize : w'.size = w'.count + base) (hleft : w'.left num < w.left num) :
    (checkIndex w').Safe num base w := by
  rw [checkIndex]
  split_ifs with hmax
  · exact ⟨hfits, hsize ▸ Nat.add_le_add_right hcount base⟩
  · have hlt := Nat.not_le.mp hmax
    exact ⟨⟨hcount, fun htable ↦ ⟨hring htable, hring htable ▸ hlt⟩, Or.inl hlt, hfits, hsize⟩, hleft⟩

theorem safe_follow (hcount : w'.count ≤ num) (hring : w'.table = none → w'.descMax = num)
    (hfits : ∀ b, Fits (w'.vec b)) (hsize : w'.size = w'.count + base) (hlt : w.count < w'.count) :
    (follow num desc w').Safe num base w := by
  rw [follow]
  split_ifs with hnext hup
  · refine safe_checkIndex hcount hring hfits hsize ?_
    rw [Walk.left, Walk.left]
    dsimp only
    split_ifs <;> omega
  · refine safe_checkIndex hcount (fun _ ↦ rfl) hfits hsize ?_
    rw [Walk.left, Walk.left, returnFromIndirect]
    dsimp only
    split_ifs <;> omega
  · exact ⟨hfits, hsize ▸ Nat.add_le_add_right hcount base⟩

theorem Walk.Safe.plainRound (h : w.Safe num base) : (plainRound num desc allocOk w).Safe num base w := by
  rw [HostRing.plainRound]
  by_cases hloop : w.count = num
  · rw [if_pos hloop]
    exact ⟨h.fits, h.size_le⟩
  rw [if_neg hloop]
  dsimp only
  split_ifs with hstarted
  · exact ⟨h.fits, h.size_le⟩
  generalize decide (desc.flags &&& descFWrite ≠ 0) = write
  cases hiov : ({ w with count := w.count + 1 } : Walk).vec write with
  | none => exact ⟨h.fits, h.size_le⟩
  | some iov =>
    dsimp only
    cases happend : iov.append ⟨desc.addr, desc.len⟩ allocOk with
    | none => exact ⟨h.fits, h.size_le⟩
    | some iov' =>
      obtain ⟨heq, -, hfits⟩ := iov.append_spec happend (h.fits write iov hiov)
      refine safe_follow ?_ (fun htable ↦ ?_) (fun b ↦ ?_) ?_ ?_
      · rw [Walk.setVec_count]
        exact Nat.lt_of_le_of_ne h.count_le hloop
      · rw [Walk.setVec_table] at htable
        rw [Walk.setVec_descMax]
        exact (h.ring htable).1
      · rcases eq_or_ne b write with rfl | hb
        · rw [Walk.vec_setVec_self]
          rintro k ⟨⟩
          exact hfits
        · rw [Walk.vec_setVec_of_ne _ hb]
          exact h.fits b
      · rw [Walk.size_setVec hiov (by rw [heq, List.length_append, List.length_singleton]), Walk.setVec_count]
        have hsize := h.size_eq
        rw [Walk.size] at hsize ⊢
        dsimp only [Walk.vec] at hsize ⊢
        omega
      · rw [Walk.setVec_count]
        exact Nat.lt_succ_self _

theorem Walk.Safe.round (h : w.Safe num base) (desc : Desc) (allocOk : Bool) :
    (round num desc allocOk w).Safe num base w := by
  rw [HostRing.round]
  split_ifs
  · exact h.moveToIndirect
  · exact h.plainRound

theorem Walk.Safe.read_inside (h : w.Safe num base) : Read.Inside num ⟨w.table, w.descMax, w.i⟩ :=
  ⟨fun htable ↦ (h.ring htable).2, h.inside⟩

/-- What `__vringh_iov` leaves behind after at most `n` rounds. -/
structure Result.Safe (num base n : ℕ) (r : Result) : Prop where
  length_le : r.reads.length ≤ n
  inside : ∀ x ∈ r.reads, x.Inside num
  fits : ∀ b, Fits (r.walk.vec b)
  size_le : r.walk.size ≤ num + base

/-- The loop ends, whatever it reads. -/
theorem Walk.Safe.iovLoop {fuel : ℕ} (h : w.Safe num base) (mem : Memory) (n : ℕ)
    (hfuel : w.left num ≤ fuel) :
    ∃ r, iovLoop num mem fuel n w = some r ∧ r.Safe num base (w.left num) := by
  have hleft : 1 ≤ w.left num := by
    rw [Walk.left]
    split_ifs <;> omega
  induction fuel generalizing n w with
  | zero => exact absurd hleft (by omega)
  | succ fuel ih =>
    have hround := h.round (mem.desc n w.table w.i) (mem.alloc n)
    have hread : ∀ x ∈ [(⟨w.table, w.descMax, w.i⟩ : Read)], x.Inside num := by
      intro x hx
      rw [List.mem_singleton.mp hx]
      exact h.read_inside
    rw [HostRing.iovLoop]
    cases hgo : HostRing.round num (mem.desc n w.table w.i) (mem.alloc n) w with
    | go w' =>
      rw [hgo] at hround
      obtain ⟨hsafe, hlt⟩ := hround
      obtain ⟨r, hr, hrsafe⟩ := ih hsafe (n + 1) (by omega) (by rw [Walk.left]; split_ifs <;> omega)
      refine ⟨{ r with reads := ⟨w.table, w.descMax, w.i⟩ :: r.reads }, by dsimp only; rw [hr]; rfl, ?_, ?_,
        hrsafe.fits, hrsafe.size_le⟩
      · have hlength := hrsafe.length_le
        rw [List.length_cons]
        omega
      · intro x hx
        rcases List.mem_cons.mp hx with rfl | hx
        · exact h.read_inside
        · exact hrsafe.inside x hx
    | done w' =>
      rw [hgo] at hround
      exact ⟨_, rfl, hleft, hread, hround.1, hround.2⟩
    | fail e w' =>
      rw [hgo] at hround
      exact ⟨_, rfl, hleft, hread, hround.1, hround.2⟩

theorem fits_clear {iov : Option Kiov} : Fits (iov.map Kiov.clear) := by
  rintro k hk
  obtain ⟨k, -, rfl⟩ := Option.map_eq_some_iff.mp hk
  exact Nat.zero_le _

theorem size_clear {iov : Option Kiov} : size (iov.map Kiov.clear) = 0 := by
  cases iov <;> rfl

/-- `__vringh_iov` ends from any head that `__vringh_get_head` returns, reads inside of the tables and writes inside of
the vectors, whatever the driver writes to the descriptors in the meantime. -/
theorem vringhIov_safe {vrh vrh' : Vringh} {avail : Avail} {head : ℕ} {riov wiov : Option Kiov}
    (hhead : vringhGetHead vrh avail = .ok (some head, vrh')) (hwiov : Fits wiov) (mem : Memory) :
    ∃ r, vringhIov vrh.num mem (2 * vrh.num + 2) head riov wiov = some r ∧ r.reads.length ≤ 2 * vrh.num + 2 ∧
      (∀ x ∈ r.reads, (x.table = none → x.i < vrh.num) ∧ (x.i < x.descMax ∨ x.i = 0)) ∧
        Fits r.walk.riov ∧ Fits r.walk.wiov ∧
          size r.walk.riov + size r.walk.wiov ≤ vrh.num + if riov.isSome then size wiov else 0 := by
  have hlt : head < vrh.num := by
    rw [vringhGetHead] at hhead
    dsimp only at hhead
    split_ifs at hhead with hempty hbad
    · cases hhead
    · cases hhead
      exact Nat.not_le.mp hbad
  have hsafe : (Walk.start vrh.num head riov wiov).Safe vrh.num (if riov.isSome then size wiov else 0) := by
    refine ⟨Nat.zero_le _, fun _ ↦ ⟨rfl, hlt⟩, Or.inl hlt, fun b ↦ ?_, ?_⟩
    · cases b with
      | false => exact fits_clear
      | true =>
        rw [Walk.vec, if_pos rfl, Walk.start]
        dsimp only
        split_ifs
        · exact hwiov
        · exact fits_clear
    · rw [Walk.size, Walk.vec, Walk.vec, if_neg Bool.false_ne_true, if_pos rfl, Walk.start]
      dsimp only
      rw [size_clear]
      split_ifs
      · rfl
      · rw [size_clear]
  obtain ⟨r, hr, hrsafe⟩ := hsafe.iovLoop mem 0 (Nat.le_refl (2 * vrh.num + 2))
  exact ⟨r, hr, hrsafe.length_le, hrsafe.inside, hrsafe.fits false, hrsafe.fits true, hrsafe.size_le⟩

/-- Every descriptor is linked to itself. -/
def loopMemory : Memory := ⟨fun _ _ i ↦ ⟨4096, 64, descFNext, i⟩, fun _ ↦ true⟩

theorem vringhIov_loopMemory : ∃ r, vringhIov 4 loopMemory 10 2 (some ⟨[], 0, 0, 0, false⟩) none = some r ∧
    r.reads.length ≤ 10 ∧ (∀ x ∈ r.reads, (x.table = none → x.i < 4) ∧ (x.i < x.descMax ∨ x.i = 0)) ∧
      Fits r.walk.riov ∧ Fits r.walk.wiov ∧ size r.walk.riov + size r.walk.wiov ≤ 4 :=
  @vringhIov_safe ⟨4, false, 0, 0, 0⟩ ⟨4, false, 1, 0, 0⟩ ⟨1, fun _ ↦ 2⟩ 2 (some ⟨[], 0, 0, 0, false⟩) none rfl
    (by rintro k ⟨⟩) loopMemory

end Vcass.Virtio.HostRing
