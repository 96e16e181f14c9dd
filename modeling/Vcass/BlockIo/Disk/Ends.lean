import Mathlib.Data.List.Induction
import Vcass.BlockIo.Disk.Runs

/-!
# Block I/O frontend: how requests end

Two questions about `vcablk_disk_request_end`: how often is it called for a request, and is the
status the right one?

## How often

As long as nothing goes wrong, exactly once: a request is in the software ring, with the request
thread, with its last part or with the completion handler, or it was ended (`Kept`). After an error
this is lost. The multi-queue `vcablk_disk_request_fn` drops a request when the software ring is full
and reports it as accepted. And the loop behind the label `end` of `vcablk_disk_async_request` has the
call of `vcablk_disk_request_end` as its body: a request that fails in its first part is never ended,
and one that fails later is ended as long as the previous part is in use.

## With which status

The error of a part is remembered for the device, not for the request. The next request to end takes
it, whichever it is. So the status of a request is right if and only if the errors answered since the
last end of a request are its own.
-/

namespace Vcass.BlockIo.Disk

open Conc

variable {s : Sys} {mq : Bool} {ls : List Label} {r : ℕ}

/-! ## How often a request is ended -/

/-- The number of calls of `vcablk_disk_request_end` for request `r`. -/
def endsOf (r : ℕ) (s : Sys) : ℕ := (s.shared.ends.map End.req).count r

/-- The request thread is through with request `r`. -/
def Processed (r : ℕ) (s : Sys) : Prop := r ∉ s.shared.queue ∧ ∀ p, s.thread ≠ some (r, p)

/-- Every published part of request `r` is answered, and the answers are handled. -/
def Answered (r : ℕ) (s : Sys) : Prop :=
  s.handler = none ∧ ∀ k p, s.shared.parts[k]? = some p → p.req = r →
    ∃ ret, (k, ret) ∈ s.shared.arrivals

theorem Inv.cur_ne (h : Inv s) (hp : Processed r s) : s.shared.cur ≠ some r := by
  intro hcur
  have hok := h.thread
  cases ht : s.thread with
  | none =>
    rw [ht] at hok
    exact absurd (hok.2.symm.trans hcur) (by simp)
  | some rp =>
    obtain ⟨x, p⟩ := rp
    rw [ht] at hok
    refine hp.2 p ?_
    rw [ht, hok.1 r hcur]

theorem Inv.closed_not_mem (h : Inv s) (ha : Answered r s) :
    r ∉ closed s.shared.parts s.shared.live := by
  intro hr
  obtain ⟨k, hk, hcloses⟩ := List.mem_filterMap.mp hr
  obtain ⟨p, hp, hpr⟩ := Option.bind_eq_some_iff.mp hcloses
  have hreq : p.req = r := by
    rw [Part.closes] at hpr
    split at hpr
    · exact Option.some_inj.mp hpr
    · simp at hpr
  obtain ⟨ret, hret⟩ := ha.2 k p hp hreq
  have hdisj := (List.nodup_append.mp h.good.parts.nodup).2.2
  exact hdisj k (List.mem_map_of_mem hret) k hk rfl

/-- **Every accepted request is ended exactly once**, as long as nothing goes wrong on its way and it
has something to publish. -/
theorem ended_once_of_faultless (h : exec (step mq) init ls = some s) (hf : s.shared.faults = [])
    (hreq : ∀ req ∈ s.shared.requests, req.segments ≠ [] ∨ req.doSync = true)
    (hr : r < s.shared.requests.length) :
    endsOf r s ≤ 1 ∧ (Processed r s → Answered r s → endsOf r s = 1) := by
  have hinv := exec_inv h
  have hplaces := hinv.good.kept ⟨hf, hreq⟩ r
  rw [if_pos hr, places] at hplaces
  refine ⟨by rw [endsOf]; omega, fun hp ha ↦ ?_⟩
  have hqueue : s.shared.queue.count r = 0 := List.count_eq_zero.mpr hp.1
  have hcur : s.shared.cur.toList.count r = 0 := by
    refine List.count_eq_zero.mpr fun hmem ↦ ?_
    exact hinv.cur_ne hp (Option.mem_toList.mp hmem)
  have hclosed := List.count_eq_zero.mpr (hinv.closed_not_mem ha)
  have hrested := hinv.handler
  rw [ha.1] at hrested
  rw [hqueue, hcur, hclosed, hrested.req] at hplaces
  rw [endsOf]
  simpa using hplaces

theorem write_ended_once :
    ∃ s, exec (step true) init [.requestFn ⟨1, 8, [4096]⟩, .dequeue, .thread 1, .thread 1, .thread 1,
        .thread 7, .thread 1, .thread 1, .thread 1, .fetch 0, .fetch 0, .fetch 0, .fetch 0, .fetch 0,
        .fetch 0, .answer 0 0, .handler 0, .handler 0, .handler 0, .handler 0, .handler 0, .handler 0,
        .handler 0] = some s ∧
      Processed 0 s ∧ Answered 0 s ∧ endsOf 0 s = 1 := by
  obtain ⟨s, hs, hf, hreq, hqueue, hthread, hhandler, hparts, harr⟩ : ∃ s, exec (step true) init
      [.requestFn ⟨1, 8, [4096]⟩, .dequeue, .thread 1, .thread 1, .thread 1, .thread 7, .thread 1,
        .thread 1, .thread 1, .fetch 0, .fetch 0, .fetch 0, .fetch 0, .fetch 0, .fetch 0, .answer 0 0,
        .handler 0, .handler 0, .handler 0, .handler 0, .handler 0, .handler 0, .handler 0] = some s ∧
      s.shared.faults = [] ∧ s.shared.requests = [⟨1, 8, [4096]⟩] ∧ s.shared.queue = [] ∧
      s.thread = none ∧ s.handler = none ∧ s.shared.parts.length = 1 ∧
      s.shared.arrivals = [(0, 0)] := ⟨_, rfl, rfl, rfl, rfl, rfl, rfl, rfl, rfl⟩
  have hp : Processed 0 s := ⟨by simp [hqueue], by simp [hthread]⟩
  have ha : Answered 0 s := by
    refine ⟨hhandler, fun k p hk _ ↦ ⟨0, ?_⟩⟩
    have hlt := (List.getElem?_eq_some_iff.mp hk).1
    rw [hparts, Nat.lt_one_iff] at hlt
    rw [harr, hlt]
    exact List.mem_singleton_self _
  exact ⟨s, hs, hp, ha,
    (ended_once_of_faultless hs hf (by simp [hreq]) (by simp [hreq])).2 hp ha⟩

/-- A request whose only segment cannot be mapped is never ended. One of 33 segments whose last
segment cannot be mapped is ended twice, while its first part is with the backend. -/
theorem failed_mapping_ended_wrong :
    (∃ s, exec (step true) init [.requestFn ⟨1, 8, [4096]⟩, .dequeue, .thread 1, .thread 1, .thread 1,
        .thread (-1), .thread 1, .thread 1, .thread 1, .thread 1] = some s ∧
      0 < s.shared.requests.length ∧ Processed 0 s ∧ Answered 0 s ∧ endsOf 0 s = 0) ∧
    ∃ s, exec (step true) init (Label.requestFn ⟨1, 8, List.replicate 33 512⟩ :: Label.dequeue ::
        (List.replicate 101 (Label.thread 1) ++
          Label.thread (-1) :: List.replicate 9 (Label.thread 1))) = some s ∧
      0 < s.shared.requests.length ∧ endsOf 0 s = 2 := by
  refine ⟨?_, _, rfl, by decide, by decide⟩
  obtain ⟨s, hs, hreq, hqueue, hthread, hhandler, hparts, hends⟩ : ∃ s, exec (step true) init
      [.requestFn ⟨1, 8, [4096]⟩, .dequeue, .thread 1, .thread 1, .thread 1, .thread (-1), .thread 1,
        .thread 1, .thread 1, .thread 1] = some s ∧ s.shared.requests.length = 1 ∧
      s.shared.queue = [] ∧ s.thread = none ∧ s.handler = none ∧ s.shared.parts = [] ∧
      s.shared.ends = [] := ⟨_, rfl, rfl, rfl, rfl, rfl, rfl, rfl⟩
  refine ⟨s, hs, by rw [hreq]; decide, ⟨by simp [hqueue], by simp [hthread]⟩,
    ⟨hhandler, by simp [hparts]⟩, ?_⟩
  rw [endsOf, hends]
  rfl

/-! ## With which status a request is ended -/

variable {parts : List Part} {pre : List (ℕ × ℕ)}

/-- The parts of one request are answered in the order of publication. -/
def InOrder (s : Shared) : Prop :=
  ∀ (pre : List (ℕ × ℕ)) (k ret : ℕ) (post : List (ℕ × ℕ)), s.arrivals = pre ++ (k, ret) :: post →
    ∀ (p q : Part) (j : ℕ), s.parts[k]? = some p → s.parts[j]? = some q → q.req = p.req → j < k →
      ∃ ret', (j, ret') ∈ pre

/-- Every part of request `r` was answered with status 0. -/
def AllOk (r : ℕ) (s : Shared) : Prop :=
  ∀ k p, s.parts[k]? = some p → p.req = r → (k, 0) ∈ s.arrivals

/-- Since the last answer to a final part, an error was answered to a part of some request. -/
def ErrorSinceEnd (parts : List Part) (pre : List (ℕ × ℕ)) : Prop :=
  ∃ l k ret post p, pre = l ++ (k, ret) :: post ∧ parts[k]? = some p ∧ p.final = false ∧ ret ≠ 0 ∧
    ∀ a ∈ post, ∀ q, parts[a.1]? = some q → q.final = false

/-- An error was answered to a part of request `r`. -/
def OwnError (parts : List Part) (r : ℕ) (pre : List (ℕ × ℕ)) : Prop :=
  ∃ a ∈ pre, a.2 ≠ 0 ∧ ∃ p, parts[a.1]? = some p ∧ p.req = r

theorem errorSinceEnd_snoc {a : ℕ × ℕ} {p : Part} (hp : parts[a.1]? = some p) :
    ErrorSinceEnd parts (pre ++ [a]) ↔
      p.final = false ∧ (a.2 ≠ 0 ∨ ErrorSinceEnd parts pre) := by
  constructor
  · rintro ⟨l, k, ret, post, q, hpre, hq, hfinal, hret, hpost⟩
    rcases post.eq_nil_or_concat with rfl | ⟨post, b, rfl⟩
    · obtain ⟨rfl, rfl⟩ := List.append_singleton_inj.mp hpre
      rw [hp, Option.some_inj] at hq
      exact ⟨hq ▸ hfinal, .inl hret⟩
    · rw [List.concat_eq_append, ← List.cons_append, ← List.append_assoc] at hpre
      obtain ⟨rfl, rfl⟩ := List.append_singleton_inj.mp hpre
      refine ⟨hpost a (by simp) p hp, .inr ⟨l, k, ret, post, q, rfl, hq, hfinal, hret, ?_⟩⟩
      exact fun b hb ↦ hpost b (by simp [hb])
  · rintro ⟨hfinal, hret | ⟨l, k, ret, post, q, rfl, hq, hq', hret, hpost⟩⟩
    · exact ⟨pre, a.1, a.2, [], p, rfl, hp, hfinal, hret, by simp⟩
    · refine ⟨l, k, ret, post ++ [a], q, by simp, hq, hq', hret, fun b hb x hx ↦ ?_⟩
      rcases List.mem_append.mp hb with hb | hb
      · exact hpost b hb x hx
      · rw [List.mem_singleton.mp hb, hp, Option.some_inj] at hx
        exact hx ▸ hfinal

/-- The device remembers an error exactly when one was answered since the last end. -/
theorem splitErrorOf_ne_zero_iff (hlt : ∀ a ∈ pre, a.1 < parts.length) :
    splitErrorOf parts pre ≠ 0 ↔ ErrorSinceEnd parts pre := by
  induction pre using List.reverseRecOn with
  | nil =>
    refine ⟨fun h ↦ absurd rfl h, ?_⟩
    rintro ⟨l, k, ret, post, p, hpre, -⟩
    exact absurd hpre (by simp)
  | append_singleton pre a ih =>
    obtain ⟨p, hp⟩ : ∃ p, parts[a.1]? = some p := ⟨_, List.getElem?_eq_getElem (hlt a (by simp))⟩
    rw [errorSinceEnd_snoc hp, ← ih fun b hb ↦ hlt b (by simp [hb]), splitErrorOf_snoc, splitStep, hp]
    dsimp only
    split
    case isTrue hfinal => simp [hfinal]
    case isFalse hfinal =>
      split
      case isTrue hret => simp [hfinal, hret]
      case isFalse hret => simp [hfinal, hret]

/-- A final part is the last part of its request. -/
theorem Good.le_final {s : Shared} {j k : ℕ} {p q : Part} (h : Good s) (hp : s.parts[k]? = some p)
    (hfinal : p.final = true) (hq : s.parts[j]? = some q) (hreq : q.req = p.req) : j ≤ k := by
  by_contra hlt
  obtain ⟨req, -, hc⟩ := h.laid p (List.mem_of_getElem? hp) hfinal
  obtain ⟨front, last, hps, -, hfront⟩ := hc.final
  -- `q` stands behind `p` in the list of the parts of the request
  have hsplit : s.parts = s.parts.take k ++ p :: s.parts.drop (k + 1) := by
    have hlen := (List.getElem?_eq_some_iff.mp hp)
    rw [← hlen.2, List.getElem_cons_drop, List.take_append_drop]
  have hmem : q ∈ partsOf p.req (s.parts.drop (k + 1)) := by
    refine List.mem_filter.mpr ⟨List.mem_of_getElem? (i := j - (k + 1)) ?_, by simp [hreq]⟩
    rw [List.getElem?_drop, show k + 1 + (j - (k + 1)) = j by omega]
    exact hq
  obtain ⟨tl, x, htl⟩ := (partsOf p.req (s.parts.drop (k + 1))).eq_nil_or_concat.resolve_left
    (List.ne_nil_of_mem hmem)
  rw [hsplit, partsOf, List.filter_append, List.filter_cons_of_pos (by simp)] at hps
  rw [partsOf, List.concat_eq_append] at htl
  rw [htl, ← List.cons_append, ← List.append_assoc] at hps
  obtain ⟨rfl, -⟩ := List.append_singleton_inj.mp hps
  exact absurd (hfront p (by simp)) (by simp [hfinal])

theorem Good.arrival_unique {s : Shared} {k ret ret' : ℕ} (h : Good s) (ha : (k, ret) ∈ s.arrivals)
    (ha' : (k, ret') ∈ s.arrivals) : ret = ret' := by
  have hnd := (List.nodup_append.mp h.parts.nodup).1
  exact congrArg Prod.snd (List.inj_on_of_nodup_map hnd ha ha' rfl)

/-- When its final part is answered in order, the parts of a request are all answered with status 0
if and only if this one is and no error was answered to the others. -/
theorem Good.allOk_iff {s : Shared} {k ret : ℕ} {p : Part} {post : List (ℕ × ℕ)} (h : Good s)
    (hord : InOrder s) (has : s.arrivals = pre ++ (k, ret) :: post) (hp : s.parts[k]? = some p)
    (hfinal : p.final = true) : AllOk p.req s ↔ ret = 0 ∧ ¬ OwnError s.parts p.req pre := by
  have hk : (k, ret) ∈ s.arrivals := by simp [has]
  constructor
  · intro hall
    refine ⟨h.arrival_unique hk (hall k p hp rfl), ?_⟩
    rintro ⟨⟨j, st⟩, hj, hst, q, hq, hreq⟩
    refine hst (h.arrival_unique ?_ (hall j q hq hreq))
    rw [has]
    exact List.mem_append_left _ hj
  · rintro ⟨rfl, hown⟩ j q hq hreq
    rcases (h.le_final hp hfinal hq hreq).eq_or_lt with rfl | hlt
    · exact hk
    · obtain ⟨st, hst⟩ := hord pre k 0 post has p q j hp hq hreq hlt
      have hzero : st = 0 := by
        by_contra hne
        exact hown ⟨(j, st), hst, hne, q, hq, hreq⟩
      rw [has, ← hzero]
      exact List.mem_append_left _ hst

/-- **The status of a request.** A request the completion handler ended was ended by the answer to
its final part. It was ended with status 0 exactly if all its parts were answered so, if and only if
that answer was an error itself, or an error was answered since the last end of any request exactly
if one was answered to this request. -/
theorem status_right_iff (h : exec (step mq) init ls = some s) (hord : InOrder s.shared) {e : End}
    (he : e ∈ s.shared.ends) (hdone : e.onBehalf ≠ none) :
    ∃ pre k ret post p, s.shared.arrivals = pre ++ (k, ret) :: post ∧
      s.shared.parts[k]? = some p ∧ p.final = true ∧ p.req = e.req ∧
      ((e.status = 0 ↔ AllOk e.req s.shared) ↔
        (ret = 0 → (ErrorSinceEnd s.shared.parts pre ↔ OwnError s.shared.parts e.req pre))) := by
  have hinv := exec_inv h
  have hmem : e ∈ answered s.shared :=
    List.mem_filter.mpr ⟨he, Option.isSome_iff_ne_none.mpr hdone⟩
  obtain ⟨pre, k, ret, post, p, has, hp, hfinal, hreq, hstatus⟩ := hinv.explained e hmem
  refine ⟨pre, k, ret, post, p, has, hp, hfinal, hreq.symm, ?_⟩
  have hlt : ∀ a ∈ pre, a.1 < s.shared.parts.length := fun a ha ↦
    hinv.good.arrivals_lt a (has ▸ List.mem_append_left _ ha)
  have hzero : e.status = 0 ↔ ret = 0 ∧ ¬ ErrorSinceEnd s.shared.parts pre := by
    rw [← splitErrorOf_ne_zero_iff hlt, hstatus]
    split
    case isTrue hne => simp [hne]
    case isFalse hne => simp [hne]
  rw [hzero, hreq, hinv.good.allOk_iff hord has hp hfinal, and_congr_right_iff]
  exact forall_congr' fun _ ↦ not_iff_not

/-- The statement above at a run with one WRITE, which is ended with the right status. -/
theorem write_status_right :
    ∃ s e, exec (step true) init [.requestFn ⟨1, 8, [4096]⟩, .dequeue, .thread 1, .thread 1,
        .thread 1, .thread 7, .thread 1, .thread 1, .thread 1, .fetch 0, .fetch 0, .fetch 0, .fetch 0,
        .fetch 0, .fetch 0, .answer 0 0, .handler 0, .handler 0, .handler 0, .handler 0, .handler 0,
        .handler 0, .handler 0] = some s ∧
      e ∈ s.shared.ends ∧ (e.status = 0 ↔ AllOk e.req s.shared) := by
  obtain ⟨s, hs, hends, harr⟩ : ∃ s, exec (step true) init
      [.requestFn ⟨1, 8, [4096]⟩, .dequeue, .thread 1, .thread 1, .thread 1, .thread 7, .thread 1,
        .thread 1, .thread 1, .fetch 0, .fetch 0, .fetch 0, .fetch 0, .fetch 0, .fetch 0, .answer 0 0,
        .handler 0, .handler 0, .handler 0, .handler 0, .handler 0, .handler 0, .handler 0] = some s ∧
      s.shared.ends = [⟨0, 0, some 1⟩] ∧ s.shared.arrivals = [(0, 0)] := ⟨_, rfl, rfl, rfl⟩
  have hone {pre post : List (ℕ × ℕ)} {k ret : ℕ}
      (h : s.shared.arrivals = pre ++ (k, ret) :: post) : pre = [] ∧ k = 0 := by
    rw [harr] at h
    cases pre with
    | nil => exact ⟨rfl, (congrArg Prod.fst (List.cons.inj h).1).symm⟩
    | cons a pre => exact absurd (congrArg List.length h) (by simp)
  have hord : InOrder s.shared := by
    intro pre k ret post h p q j _ _ _ hj
    exact absurd hj (by simp [(hone h).2])
  have he : (⟨0, 0, some 1⟩ : End) ∈ s.shared.ends := by simp [hends]
  obtain ⟨pre, k, ret, post, p, has, -, -, -, hiff⟩ := status_right_iff hs hord he (by simp)
  refine ⟨s, _, hs, he, hiff.mpr fun _ ↦ ?_⟩
  rw [(hone has).1]
  simp [ErrorSinceEnd, OwnError]

/-- Two requests whose parts are answered in the order 0, 2, 1, where 0 and 1 belong together. -/
theorem inOrder_of_interleaved {t : Shared} {err : ℕ} (hreqs : t.parts.map Part.req = [0, 0, 1])
    (harr : t.arrivals = [(0, err), (2, 0), (1, 0)]) (herr : err ≠ 0) :
    InOrder t ∧ ¬ AllOk 0 t ∧ AllOk 1 t := by
  have hreq {k : ℕ} {p : Part} (hp : t.parts[k]? = some p) : [0, 0, 1][k]? = some p.req := by
    rw [← hreqs, List.getElem?_map, hp]
    rfl
  refine ⟨?_, fun hall ↦ ?_, fun k p hp hpr ↦ ?_⟩
  · intro pre k ret post h p q j hp hq hpq hj
    rw [harr] at h
    have hp := hreq hp
    have hq := hreq hq
    rcases pre with _ | ⟨a, _ | ⟨b, _ | ⟨c, l⟩⟩⟩
    · obtain ⟨⟨rfl, -⟩, -⟩ : (0 = k ∧ _) ∧ _ := by simpa using h
      exact absurd hj (Nat.not_lt_zero _)
    · obtain ⟨-, ⟨rfl, -⟩, -⟩ : _ ∧ (2 = k ∧ _) ∧ _ := by simpa using h
      have hp : 1 = p.req := Option.some_inj.mp hp
      have hq : 0 = q.req := by
        obtain rfl | rfl : j = 0 ∨ j = 1 := by omega
        all_goals exact Option.some_inj.mp hq
      omega
    · obtain ⟨rfl, -, ⟨rfl, -⟩, -⟩ : _ = a ∧ _ ∧ (1 = k ∧ _) ∧ _ := by simpa using h
      rw [Nat.lt_one_iff.mp hj]
      exact ⟨_, List.mem_cons_self⟩
    · exact absurd (congrArg List.length h) (by simp)
  · obtain ⟨p, hp⟩ : ∃ p, t.parts[0]? = some p := by
      refine ⟨_, List.getElem?_eq_getElem ?_⟩
      rw [← List.length_map (f := Part.req), hreqs]
      decide
    have hmem := hall 0 p hp (by simpa using (hreq hp).symm)
    rw [harr] at hmem
    refine herr ?_
    simpa [eq_comm] using hmem
  · have hk := hreq hp
    rw [hpr] at hk
    have hlt : k < 3 := (List.getElem?_eq_some_iff.mp hk).1
    rw [harr]
    obtain rfl | rfl | rfl : k = 0 ∨ k = 1 ∨ k = 2 := by omega
    · exact absurd (Option.some_inj.mp hk) (by decide)
    · exact absurd (Option.some_inj.mp hk) (by decide)
    · simp

/-- A request of 33 segments and one of a single segment are outstanding. The first part of the former
fails, the latter is answered with status 0, then the last part of the former. The latter is ended
with the error and the former with status 0. -/
theorem split_error_misattributed :
    ∃ s, exec (step true) init (Label.requestFn ⟨1, 8, List.replicate 33 512⟩ ::
        Label.requestFn ⟨1, 64, [512]⟩ :: Label.dequeue :: (List.replicate 105 (Label.thread 1) ++
          Label.dequeue :: (List.replicate 7 (Label.thread 1) ++ (List.replicate 49 (Label.fetch 0) ++
            Label.answer 0 (u8 (-eio)) :: (List.replicate 6 (Label.handler 0) ++
              Label.answer 2 0 :: (List.replicate 8 (Label.handler 0) ++
                Label.answer 1 0 :: List.replicate 7 (Label.handler 0))))))) = some s ∧
      InOrder s.shared ∧ ⟨0, 0, some 2⟩ ∈ s.shared.ends ∧ ¬ AllOk 0 s.shared ∧
      ⟨1, u8 (-eio), some 3⟩ ∈ s.shared.ends ∧ AllOk 1 s.shared := by
  have hrun : (exec (step true) init
      (Label.requestFn ⟨1, 8, List.replicate 33 512⟩ ::
        Label.requestFn ⟨1, 64, [512]⟩ :: Label.dequeue :: (List.replicate 105 (Label.thread 1) ++
          Label.dequeue :: (List.replicate 7 (Label.thread 1) ++ (List.replicate 49 (Label.fetch 0) ++
            Label.answer 0 (u8 (-eio)) :: (List.replicate 6 (Label.handler 0) ++
              Label.answer 2 0 :: (List.replicate 8 (Label.handler 0) ++
                Label.answer 1 0 :: List.replicate 7 (Label.handler 0)))))))).map
        (fun s ↦ (s.shared.ends, s.shared.arrivals, s.shared.parts.map Part.req)) =
          some ([⟨1, u8 (-eio), some 3⟩, ⟨0, 0, some 2⟩], [(0, u8 (-eio)), (2, 0), (1, 0)], [0, 0, 1]) := by
    decide +kernel
  obtain ⟨s, hs, heq⟩ := Option.map_eq_some_iff.mp hrun
  obtain ⟨hends, hrest⟩ := Prod.mk.inj heq
  obtain ⟨harr, hreqs⟩ := Prod.mk.inj hrest
  obtain ⟨hord, hfail, hok⟩ := inOrder_of_interleaved hreqs harr (by decide)
  exact ⟨s, hs, hord, by simp [hends], hfail, by simp [hends], hok⟩

end Vcass.BlockIo.Disk
