import Mathlib.Data.List.Perm.Basic
import Vcass.Lib.Prog
import Vcass.Lib.Run
import Vcass.BlockIo.Pool

/-!
# The element pool without a lock

`vcablk_pool_pop` and `vcablk_pool_push` as programs of single loads and stores, run by one thread
that takes elements and one that returns them. This is how the backend uses `transfer_buffer_pool`:
the request thread pops, the transfer thread pushes, and nothing orders their accesses.

An element that is popped or pushed passes through a moment at which it is neither in the list nor
held. The popper moves `head` past the element before it marks it, the pusher clears the mark before
it links the element in. The two never meet: the popper touches the link of the first element only,
and only when that is not the last; the pusher touches the link of the last one and of the element it
returns. `At` is the invariant; besides the list it names the elements in transit.

Sequences of complete operations, as `Vcass.BlockIo.Pool` has them, are the runs in which no two
operations overlap.
-/

namespace Vcass.BlockIo.PoolThreads

open Conc VcablkPool
open Function (update)

/-! ## The code -/

/-- The accesses to the shared words of a pool. -/
inductive Op
  | head
  | tail
  | nextFree (idx : ℕ)
  | setHead (v : ℕ)
  | setTail (v : ℕ)
  | setNextFree (idx v : ℕ)

abbrev Res : Op → Type
  | .head => ℕ
  | .tail => ℕ
  | .nextFree _ => ℕ
  | _ => Unit

abbrev PProg := Prog Op Res

abbrev call (o : Op) : PProg (Res o) := Prog.perform o

/-- What an access answers and does. -/
def sem (p : VcablkPool) : (o : Op) → Res o × VcablkPool
  | .head => (p.head, p)
  | .tail => (p.tail, p)
  | .nextFree idx => (p.nextFree idx, p)
  | .setHead v => ((), { p with head := v })
  | .setTail v => ((), { p with tail := v })
  | .setNextFree idx v => ((), { p with nextFree := update p.nextFree idx v })

/-- The body of the `if` of `vcablk_pool_pop`. `head` is loaded anew for `item` and for `get_id`. -/
def takeCode : PProg (Option (ℕ × ℕ)) := do
  let item ← call .head
  let getId ← call .head
  let next ← call (.nextFree item)
  call (.setHead next)
  call (.setNextFree item vcablkPoolUsed)
  pure (some (item, getId))

/-- The element taken and the id reported for it, or nothing. -/
def vcablkPoolPopCode : PProg (Option (ℕ × ℕ)) := do
  let head ← call .head
  let tail ← call .tail
  if head ≠ tail then takeCode else pure none

/-- `vcablk_pool_push` of element `idx`; `false` is its `BUG_ON`. -/
def vcablkPoolPushCode (num idx : ℕ) : PProg Bool := do
  let nextFree ← call (.nextFree idx)
  if nextFree ≠ vcablkPoolUsed ∨ num ≤ idx then
    pure false
  else
    call (.setNextFree idx 0)
    let tail ← call .tail
    call (.setNextFree tail idx)
    call (.setTail idx)
    pure true

/-! ## The system -/

/-- The pool, what is left of the two threads' programs, the elements that are held, and, as history,
all elements ever handed out and ever returned. -/
structure Sys where
  pool : VcablkPool
  popper : Option (PProg (Option (ℕ × ℕ)))
  pusher : Option (ℕ × PProg Bool)
  held : List ℕ
  out : List ℕ
  back : List ℕ

inductive Label
  | popStart
  | pop
  /-- The return of a held element begins. -/
  | pushStart (i : ℕ)
  | push

/-- The element `i` is handed out. -/
def Sys.handOut (s : Sys) (i : ℕ) : Sys := { s with held := s.held ++ [i], out := s.out ++ [i] }

/-- The holder gives the element `i` back. -/
def Sys.giveBack (s : Sys) (i : ℕ) : Sys :=
  { s with held := s.held.erase i, back := s.back ++ [i] }

def step (s : Sys) : Label → Option Sys
  | .popStart =>
    match s.popper with
    | none => some { s with popper := some vcablkPoolPopCode }
    | some _ => none
  | .pop =>
    match s.popper with
    | none => none
    | some (.ret none) => some { s with popper := none }
    | some (.ret (some (item, _))) => some ({ s with popper := none }.handOut item)
    | some (.act o k) => some { s with
        pool := (sem s.pool o).2
        popper := some (k (sem s.pool o).1) }
  | .pushStart i =>
    match s.pusher with
    | none =>
      if i ∈ s.held then
        some ({ s with pusher := some (i, vcablkPoolPushCode s.pool.num i) }.giveBack i)
      else none
    | some _ => none
  | .push =>
    match s.pusher with
    | none => none
    | some (_, .ret false) => none
    | some (_, .ret true) => some { s with pusher := none }
    | some (i, .act o k) => some { s with
        pool := (sem s.pool o).2
        pusher := some (i, k (sem s.pool o).1) }

/-- Whole operations, one after the other. -/
inductive SeqOp
  | pop
  | push (i : ℕ)

def seqStep (s : Sys) : SeqOp → Option Sys
  | .pop =>
    match s.pool.vcablkPoolPop with
    | none => some s
    | some (i, pool) => some ({ s with pool := pool }.handOut i)
  | .push i =>
    if i ∈ s.held then
      (s.pool.vcablkPoolPush i).map fun pool ↦ { s with pool := pool }.giveBack i
    else none

/-- A pool nobody has used yet. -/
def start (pool : VcablkPool) : Sys where
  pool := pool
  popper := none
  pusher := none
  held := []
  out := []
  back := []

/-! ## The invariant -/

/-- Where the popper is. `bare` is the element it has unhooked and not marked yet, `marked` the one
it has marked and not handed out yet. -/
inductive PopAt (head : ℕ) (free : List ℕ) :
    Option (PProg (Option (ℕ × ℕ))) → (bare marked : List ℕ) → Prop
  | idle : PopAt head free none [] []
  | start : PopAt head free (some vcablkPoolPopCode) [] []
  | loaded : PopAt head free
      (some (.act .tail fun (tail : ℕ) ↦ if head ≠ tail then takeCode else pure none)) [] []
  | failed : PopAt head free (some (.ret none)) [] []
  | passed {x : ℕ} {rest : List ℕ} (h : free = head :: x :: rest) :
      PopAt head free (some takeCode) [] []
  | gotItem {x : ℕ} {rest : List ℕ} (h : free = head :: x :: rest) :
      PopAt head free (some (.act .head fun (getId : ℕ) ↦ .act (.nextFree head) fun (next : ℕ) ↦
        .act (.setHead next) fun _ ↦ .act (.setNextFree head vcablkPoolUsed) fun _ ↦
          .ret (some (head, getId)))) [] []
  | gotId {x : ℕ} {rest : List ℕ} (h : free = head :: x :: rest) :
      PopAt head free (some (.act (.nextFree head) fun (next : ℕ) ↦ .act (.setHead next) fun _ ↦
        .act (.setNextFree head vcablkPoolUsed) fun _ ↦ .ret (some (head, head)))) [] []
  | gotNext {x : ℕ} {rest : List ℕ} (h : free = head :: x :: rest) :
      PopAt head free (some (.act (.setHead x) fun _ ↦
        .act (.setNextFree head vcablkPoolUsed) fun _ ↦ .ret (some (head, head)))) [] []
  | unhooked {i : ℕ} :
      PopAt head free (some (.act (.setNextFree i vcablkPoolUsed) fun _ ↦ .ret (some (i, i)))) [i] []
  | marked {i : ℕ} : PopAt head free (some (.ret (some (i, i)))) [] [i]

/-- Where the pusher is. `bare` is the element it returns once its mark is cleared, `marked` before
that. -/
inductive PushAt (num tail : ℕ) (nextFree : ℕ → ℕ) :
    Option (ℕ × PProg Bool) → (bare marked : List ℕ) → Prop
  | idle : PushAt num tail nextFree none [] []
  | start {i : ℕ} : PushAt num tail nextFree (some (i, vcablkPoolPushCode num i)) [] [i]
  | checked {i : ℕ} :
      PushAt num tail nextFree (some (i, .act (.setNextFree i 0) fun _ ↦ .act .tail fun (tail : ℕ) ↦
        .act (.setNextFree tail i) fun _ ↦ .act (.setTail i) fun _ ↦ .ret true)) [] [i]
  | cleared {i : ℕ} :
      PushAt num tail nextFree (some (i, .act .tail fun (tail : ℕ) ↦
        .act (.setNextFree tail i) fun _ ↦ .act (.setTail i) fun _ ↦ .ret true)) [i] []
  | gotTail {i : ℕ} :
      PushAt num tail nextFree (some (i, .act (.setNextFree tail i) fun _ ↦
        .act (.setTail i) fun _ ↦ .ret true)) [i] []
  | hooked {i : ℕ} (h : nextFree tail = i) :
      PushAt num tail nextFree (some (i, .act (.setTail i) fun _ ↦ .ret true)) [i] []
  | finished {i : ℕ} : PushAt num tail nextFree (some (i, .ret true)) [] []

/-- **The invariant.** The links spell the list `free`, whatever the threads are doing; every element
is free, held or in transit; and the marks are on the held elements and on those in transit that
still have one. -/
structure At (n : ℕ) (s : Sys) (free bare marked bare' marked' : List ℕ) : Prop where
  pop : PopAt s.pool.head free s.popper bare marked
  push : PushAt s.pool.num s.pool.tail s.pool.nextFree s.pusher bare' marked'
  linked : ∃ rest, free = s.pool.head :: rest ∧
    Linked s.pool.nextFree s.pool.tail s.pool.head rest
  perm : (s.held ++ (bare ++ marked) ++ (bare' ++ marked') ++ free).Perm (List.range s.pool.num)
  used : ∀ i < s.pool.num, s.pool.nextFree i = vcablkPoolUsed ↔
    i ∈ s.held ∨ i ∈ marked ∨ i ∈ marked'
  order : s.out ++ (bare ++ marked) ++ free ++ (bare' ++ marked') =
    List.range s.pool.num ++ s.back
  num : s.pool.num = n + 1
  num_lt : s.pool.num < vcablkPoolUsed

/-- A state in which the invariant holds. -/
def Inv (n : ℕ) (s : Sys) : Prop :=
  ∃ free bare marked bare' marked', At n s free bare marked bare' marked'

section At

variable {n i : ℕ} {s s' : Sys} {free bare marked bare' marked' : List ℕ}

/-- Every element is in exactly one place. -/
theorem At.count (h : At n s free bare marked bare' marked') (j : ℕ) :
    s.held.count j + (bare.count j + marked.count j) + (bare'.count j + marked'.count j) +
      free.count j = if j < s.pool.num then 1 else 0 := by
  have := h.perm.count_eq j
  simpa only [List.count_append, List.count_range] using this

theorem At.notMem_free (h : At n s free bare marked bare' marked')
    (hi : i ∈ s.held ++ (bare ++ marked) ++ (bare' ++ marked')) : i ∉ free := fun hfree ↦ by
  have hcount := h.count i
  have hpos := List.count_pos_iff.mpr hi
  have hpos' := List.count_pos_iff.mpr hfree
  simp only [List.count_append] at hpos
  split at hcount <;> omega

theorem At.nodup_free (h : At n s free bare marked bare' marked') : free.Nodup :=
  List.nodup_iff_count_le_one.mpr fun j ↦ by
    have := h.count j
    split at this <;> omega

theorem At.lt_num (h : At n s free bare marked bare' marked')
    (hi : i ∈ s.held ++ (bare ++ marked) ++ (bare' ++ marked') ++ free) : i < s.pool.num :=
  List.mem_range.mp (h.perm.subset hi)

theorem perm_of_count {held bare marked bare' marked' free : List ℕ} {num : ℕ}
    (h : ∀ j, held.count j + (bare.count j + marked.count j) +
      (bare'.count j + marked'.count j) + free.count j = if j < num then 1 else 0) :
    (held ++ (bare ++ marked) ++ (bare' ++ marked') ++ free).Perm (List.range num) := by
  rw [List.perm_iff_count]
  intro j
  simpa only [List.count_append, List.count_range] using h j

theorem At.tail_mem (h : At n s free bare marked bare' marked') : s.pool.tail ∈ free := by
  obtain ⟨rest, rfl, hlink⟩ := h.linked
  exact hlink.tail_mem

theorem PopAt.append {head : ℕ} {p : Option (PProg (Option (ℕ × ℕ)))}
    (h : PopAt head free p bare marked) : PopAt head (free ++ [i]) p bare marked := by
  cases h with
  | passed h => exact .passed (by rw [h]; rfl)
  | gotItem h => exact .gotItem (by rw [h]; rfl)
  | gotId h => exact .gotId (by rw [h]; rfl)
  | gotNext h => exact .gotNext (by rw [h]; rfl)
  | _ => constructor

theorem PushAt.congr {num tail : ℕ} {f g : ℕ → ℕ} {p : Option (ℕ × PProg Bool)}
    (h : PushAt num tail f p bare marked) (hfg : g tail = f tail) :
    PushAt num tail g p bare marked := by
  cases h with
  | hooked h => exact .hooked (hfg.trans h)
  | _ => constructor

/-- The popper does something that only it can see. -/
theorem At.pop_local {p : Option (PProg (Option (ℕ × ℕ)))}
    (h : At n s free bare marked bare' marked') (hp : PopAt s.pool.head free p bare marked) :
    At n { s with popper := p } free bare marked bare' marked' :=
  ⟨hp, h.push, h.linked, h.perm, h.used, h.order, h.num, h.num_lt⟩

/-- **The popper moves `head`** past the first element. -/
theorem At.setHead {x : ℕ} {rest : List ℕ} {p : PProg (Option (ℕ × ℕ))}
    (h : At n s free [] [] bare' marked') (hfree : free = s.pool.head :: x :: rest)
    (hp : PopAt x (x :: rest) (some p) [s.pool.head] []) :
    At n { s with pool := { s.pool with head := x }, popper := some p } (x :: rest)
      [s.pool.head] [] bare' marked' := by
  obtain ⟨rest', hrest, hlink⟩ := h.linked
  obtain rfl : x :: rest = rest' := by
    rw [hfree] at hrest
    exact (List.cons.inj hrest).2
  refine ⟨hp, h.push, ⟨rest, rfl, hlink.2⟩, ?_, h.used, ?_, h.num, h.num_lt⟩
  · refine perm_of_count fun j ↦ ?_
    rw [← h.count j, hfree]
    simp only [List.count_cons, List.count_nil]
    omega
  · have := h.order
    simpa [hfree] using this

/-- **The popper marks** the element it has unhooked. -/
theorem At.mark {p : PProg (Option (ℕ × ℕ))} (h : At n s free [i] [] bare' marked')
    (hp : PopAt s.pool.head free (some p) [] [i]) :
    At n { s with
      pool := { s.pool with nextFree := update s.pool.nextFree i vcablkPoolUsed }
      popper := some p } free [] [i] bare' marked' := by
  have hi : i ∉ free := h.notMem_free (by simp)
  have hfree : ∀ j ∈ free, update s.pool.nextFree i vcablkPoolUsed j = s.pool.nextFree j :=
    fun j hj ↦ Function.update_of_ne (fun hji : j = i ↦ hi (hji ▸ hj)) _ _
  refine ⟨hp, h.push.congr (hfree _ h.tail_mem), ?_, h.perm, fun j hj ↦ ?_, h.order, h.num,
    h.num_lt⟩
  · obtain ⟨rest, rfl, hlink⟩ := h.linked
    exact ⟨rest, rfl, hlink.congr fun j hj ↦ (hfree j hj).symm⟩
  · by_cases hji : j = i
    · simp [hji]
    · have := h.used j hj
      simpa [hji] using this

/-- **The popper hands out** the element it has marked. -/
theorem At.handOut (h : At n s free [] [i] bare' marked') :
    At n ({ s with popper := none }.handOut i) free [] [] bare' marked' := by
  refine ⟨.idle, h.push, h.linked, perm_of_count fun j ↦ ?_, fun j hj ↦ ?_, ?_, h.num, h.num_lt⟩
  · refine Eq.trans ?_ (h.count j)
    simp only [Sys.handOut, List.count_append, List.count_nil]
    omega
  · simp [Sys.handOut, h.used j hj, or_assoc]
  · have := h.order
    simpa [Sys.handOut] using this

theorem step_pop_act {o : Op} {k : Res o → PProg (Option (ℕ × ℕ))}
    (hp : s.popper = some (.act o k)) (hs : step s .pop = some s') :
    s' = { s with pool := (sem s.pool o).2, popper := some (k (sem s.pool o).1) } := by
  simpa only [step, hp, Option.some_inj, eq_comm] using hs

theorem At.pop_step (h : At n s free bare marked bare' marked') (hs : step s .pop = some s') :
    ∃ free bare marked, At n s' free bare marked bare' marked' := by
  obtain ⟨rest, hrest, hlink⟩ := h.linked
  have hpop := h.pop
  generalize hp : s.popper = p at hpop
  cases hpop with
  | idle => simp [step, hp] at hs
  | start =>
    obtain rfl := step_pop_act hp hs
    exact ⟨free, [], [], h.pop_local .loaded⟩
  | loaded =>
    obtain rfl := step_pop_act hp hs
    refine ⟨free, [], [], h.pop_local ?_⟩
    rw [show (sem s.pool .tail).1 = s.pool.tail from rfl]
    by_cases hne : s.pool.head ≠ s.pool.tail
    · obtain _ | ⟨x, rest⟩ := rest
      · exact absurd hlink hne
      · rw [if_pos hne]
        exact .passed hrest
    · rw [if_neg hne]
      exact .failed
  | failed =>
    simp only [step, hp, Option.some_inj] at hs
    subst hs
    exact ⟨free, [], [], h.pop_local .idle⟩
  | passed hfree =>
    obtain rfl := step_pop_act hp hs
    exact ⟨free, [], [], h.pop_local (.gotItem hfree)⟩
  | gotItem hfree =>
    obtain rfl := step_pop_act hp hs
    exact ⟨free, [], [], h.pop_local (.gotId hfree)⟩
  | gotId hfree =>
    obtain rfl := step_pop_act hp hs
    obtain rfl := (List.cons.inj (hrest.symm.trans hfree)).2
    refine ⟨free, [], [], h.pop_local ?_⟩
    rw [show (sem s.pool (.nextFree s.pool.head)).1 = _ from hlink.1]
    exact .gotNext hfree
  | gotNext hfree =>
    obtain rfl := step_pop_act hp hs
    exact ⟨_, _, [], h.setHead hfree .unhooked⟩
  | unhooked =>
    obtain rfl := step_pop_act hp hs
    exact ⟨free, [], _, h.mark .marked⟩
  | marked =>
    simp only [step, hp, Option.some_inj] at hs
    subst hs
    exact ⟨free, [], [], h.handOut⟩

/-! ### The pusher -/

theorem At.push_local {p : Option (ℕ × PProg Bool)}
    (h : At n s free bare marked bare' marked')
    (hp : PushAt s.pool.num s.pool.tail s.pool.nextFree p bare' marked') :
    At n { s with pusher := p } free bare marked bare' marked' :=
  ⟨h.pop, hp, h.linked, h.perm, h.used, h.order, h.num, h.num_lt⟩

/-- **The holder gives an element back**: from now on it is in transit. -/
theorem At.giveBack (h : At n s free bare marked [] []) (hi : i ∈ s.held) :
    At n ({ s with pusher := some (i, vcablkPoolPushCode s.pool.num i) }.giveBack i) free bare
      marked [] [i] := by
  have hnd : s.held.Nodup := List.nodup_iff_count_le_one.mpr fun j ↦ by
    have := h.count j
    split at this <;> omega
  refine ⟨h.pop, .start, h.linked, perm_of_count fun j ↦ ?_, fun j hj ↦ ?_, ?_, h.num, h.num_lt⟩
  · have hpos := List.count_pos_iff.mpr hi
    refine Eq.trans ?_ (h.count j)
    simp only [Sys.giveBack, List.count_erase, List.count_cons, List.count_nil, beq_iff_eq]
    split
    · subst_vars
      omega
    · rfl
  · simp only [Sys.giveBack, h.used j hj]
    by_cases hji : j = i
    · simp [hji, hi]
    · simp [hnd.mem_erase_iff, hji]
  · have := congrArg (· ++ [i]) h.order
    simpa [Sys.giveBack] using this

/-- **The pusher clears the mark** of the element it returns. -/
theorem At.clearMark {p : PProg Bool} (h : At n s free bare marked [] [i])
    (hp : PushAt s.pool.num s.pool.tail (update s.pool.nextFree i 0) (some (i, p)) [i] []) :
    At n { s with
      pool := { s.pool with nextFree := update s.pool.nextFree i 0 }
      pusher := some (i, p) } free bare marked [i] [] := by
  have hi : i ∉ free := h.notMem_free (by simp)
  refine ⟨h.pop, hp, ?_, h.perm, fun j hj ↦ ?_, h.order, h.num, h.num_lt⟩
  · obtain ⟨rest, rfl, hlink⟩ := h.linked
    exact ⟨rest, rfl, hlink.congr fun j hj ↦
      (Function.update_of_ne (fun hji : j = i ↦ hi (hji ▸ hj)) _ _).symm⟩
  · have hcount := h.count j
    by_cases hji : j = i
    · subst hji
      have hheld : j ∉ s.held := fun hj' ↦ by
        have := List.count_pos_iff.mpr hj'
        simp only [List.count_cons_self] at hcount
        split at hcount <;> omega
      have hmarked : j ∉ marked := fun hj' ↦ by
        have := List.count_pos_iff.mpr hj'
        simp only [List.count_cons_self] at hcount
        split at hcount <;> omega
      simp [hheld, hmarked, vcablkPoolUsed]
    · have := h.used j hj
      simpa [hji] using this

/-- **The pusher links the element in** behind the last one, which nobody reads yet. -/
theorem At.hook {p : PProg Bool} (h : At n s free bare marked [i] [])
    (hp : PushAt s.pool.num s.pool.tail (update s.pool.nextFree s.pool.tail i) (some (i, p)) [i] []) :
    At n { s with
      pool := { s.pool with nextFree := update s.pool.nextFree s.pool.tail i }
      pusher := some (i, p) } free bare marked [i] [] := by
  refine ⟨h.pop, hp, ?_, h.perm, fun j hj ↦ ?_, h.order, h.num, h.num_lt⟩
  · obtain ⟨rest, rfl, hlink⟩ := h.linked
    exact ⟨rest, rfl, hlink.update_tail h.nodup_free⟩
  · by_cases hjt : j = s.pool.tail
    · subst hjt
      have hi : i ≠ vcablkPoolUsed := ((h.lt_num (by simp)).trans h.num_lt).ne
      have htail : ¬ (s.pool.tail ∈ s.held ∨ s.pool.tail ∈ marked) := by
        rintro (hmem | hmem) <;> exact h.notMem_free (by simp [hmem]) h.tail_mem
      simpa [hi] using htail
    · have := h.used j hj
      simpa [hjt] using this

/-- **The pusher moves `tail`**: the element is in the list. -/
theorem At.setTail {p : PProg Bool} (h : At n s free bare marked [i] [])
    (ht : s.pool.nextFree s.pool.tail = i)
    (hp : PushAt s.pool.num i s.pool.nextFree (some (i, p)) [] []) :
    At n { s with pool := { s.pool with tail := i }, pusher := some (i, p) } (free ++ [i]) bare
      marked [] [] := by
  refine ⟨h.pop.append, hp, ?_, perm_of_count fun j ↦ ?_, h.used, ?_, h.num, h.num_lt⟩
  · obtain ⟨rest, rfl, hlink⟩ := h.linked
    exact ⟨rest ++ [i], rfl, hlink.extend ht⟩
  · refine Eq.trans ?_ (h.count j)
    simp only [List.count_append, List.count_nil]
    omega
  · have := h.order
    simpa using this

theorem step_push_act {o : Op} {k : Res o → PProg Bool} (hp : s.pusher = some (i, .act o k))
    (hs : step s .push = some s') :
    s' = { s with pool := (sem s.pool o).2, pusher := some (i, k (sem s.pool o).1) } := by
  simpa only [step, hp, Option.some_inj, eq_comm] using hs

theorem At.push_step (h : At n s free bare marked bare' marked') (hs : step s .push = some s') :
    ∃ free bare' marked', At n s' free bare marked bare' marked' := by
  have hpush := h.push
  generalize hp : s.pusher = p at hpush
  cases hpush with
  | idle => simp [step, hp] at hs
  | @start i =>
    obtain rfl := step_push_act hp hs
    refine ⟨free, [], [i], h.push_local ?_⟩
    have hlt : i < s.pool.num := h.lt_num (by simp)
    have hused : s.pool.nextFree i = vcablkPoolUsed := (h.used i hlt).mpr (by simp)
    rw [show (sem s.pool (.nextFree i)).1 = vcablkPoolUsed from hused]
    dsimp only [Prog.bind]
    rw [if_neg]
    · exact .checked
    · simpa using hlt
  | checked =>
    obtain rfl := step_push_act hp hs
    exact ⟨free, _, [], h.clearMark .cleared⟩
  | cleared =>
    obtain rfl := step_push_act hp hs
    exact ⟨free, _, [], h.push_local .gotTail⟩
  | gotTail =>
    obtain rfl := step_push_act hp hs
    exact ⟨free, _, [], h.hook (.hooked (Function.update_self ..))⟩
  | hooked ht =>
    obtain rfl := step_push_act hp hs
    exact ⟨_, [], [], h.setTail ht .finished⟩
  | finished =>
    simp only [step, hp, Option.some_inj] at hs
    subst hs
    exact ⟨free, [], [], h.push_local .idle⟩

/-- **One step** of either thread keeps the invariant. -/
theorem At.step {l : Label} (h : At n s free bare marked bare' marked')
    (hs : PoolThreads.step s l = some s') : Inv n s' := by
  cases l with
  | popStart =>
    rw [PoolThreads.step] at hs
    split at hs <;> cases hs
    rename_i hnone
    have hpop := h.pop
    rw [hnone] at hpop
    cases hpop
    exact ⟨free, [], [], bare', marked', h.pop_local .start⟩
  | pop =>
    obtain ⟨free, bare, marked, h⟩ := h.pop_step hs
    exact ⟨free, bare, marked, bare', marked', h⟩
  | pushStart i =>
    rw [PoolThreads.step] at hs
    split at hs
    · rename_i hnone
      split at hs <;> cases hs
      rename_i hi
      have hpush := h.push
      rw [hnone] at hpush
      cases hpush
      exact ⟨free, bare, marked, [], [i], h.giveBack hi⟩
    · cases hs
  | push =>
    obtain ⟨free, bare', marked', h⟩ := h.push_step hs
    exact ⟨free, bare, marked, bare', marked', h⟩

theorem At.start {pool : VcablkPool} (h : vcablkPoolInit n = some pool) :
    At n (start pool) (List.range (n + 1)) [] [] [] [] := by
  obtain ⟨hholds, hnum⟩ := vcablkPoolInit_holds h
  refine ⟨.idle, .idle, hholds.linked, ?_, fun i hi ↦ ?_, ?_, hnum, hholds.num_le⟩
  · simp [PoolThreads.start, hnum]
  · have hmem : i ∈ List.range (n + 1) := List.mem_range.mpr (hnum ▸ hi)
    have hused : ¬ pool.nextFree i = vcablkPoolUsed := fun h' ↦
      (hholds.used_iff i hi).mp h' hmem
    simpa [PoolThreads.start] using hused
  · simp [PoolThreads.start, hnum]

end At

/-! ## Operations that do not overlap -/

/-- No operation is underway. -/
def Sys.Idle (s : Sys) : Prop := s.popper = none ∧ s.pusher = none

theorem exec_pop {s s' : Sys} (hidle : s.Idle) (h : seqStep s .pop = some s') :
    ∃ ls, exec step s ls = some s' ∧ s'.Idle := by
  obtain ⟨pool, popper, pusher, held, out, back⟩ := s
  obtain ⟨rfl, rfl⟩ := hidle
  by_cases hne : pool.head ≠ pool.tail
  · simp only [seqStep, vcablkPoolPop, if_pos hne, Option.some_inj] at h
    refine ⟨.popStart :: List.replicate 8 .pop, ?_, h ▸ ⟨rfl, rfl⟩⟩
    rw [← h]
    simp [List.replicate, exec, step, vcablkPoolPopCode, takeCode, sem, hne, Sys.handOut]
  · simp only [seqStep, vcablkPoolPop, if_neg hne, Option.some_inj] at h
    refine ⟨.popStart :: List.replicate 3 .pop, ?_, h ▸ ⟨rfl, rfl⟩⟩
    rw [← h]
    simp [List.replicate, exec, step, vcablkPoolPopCode, sem, not_not.mp hne]

theorem exec_push {s s' : Sys} {i : ℕ} (hidle : s.Idle) (h : seqStep s (.push i) = some s') :
    ∃ ls, exec step s ls = some s' ∧ s'.Idle := by
  obtain ⟨pool, popper, pusher, held, out, back⟩ := s
  obtain ⟨rfl, rfl⟩ := hidle
  rw [seqStep] at h
  split at h
  · rename_i hi
    obtain ⟨pool', hpush, rfl⟩ := Option.map_eq_some_iff.mp h
    rw [vcablkPoolPush] at hpush
    split at hpush <;> cases hpush
    rename_i hok
    refine ⟨.pushStart i :: List.replicate 6 .push, ?_, rfl, rfl⟩
    simp [List.replicate, exec, step, vcablkPoolPushCode, sem, hi, hok, Sys.giveBack]
  · cases h

theorem exec_of_seq {s s' : Sys} {ops : List SeqOp} (hidle : s.Idle)
    (h : exec seqStep s ops = some s') : ∃ ls, exec step s ls = some s' ∧ s'.Idle := by
  induction ops generalizing s with
  | nil =>
    rw [exec_nil, Option.some_inj] at h
    exact ⟨[], congrArg some h, h ▸ hidle⟩
  | cons op ops ih =>
    obtain ⟨t, ht, h⟩ := exec_cons.mp h
    obtain ⟨ls, hls, hidle'⟩ : ∃ ls, exec step s ls = some t ∧ t.Idle := by
      cases op with
      | pop => exact exec_pop hidle ht
      | push i => exact exec_push hidle ht
    obtain ⟨ls', hls', hidle''⟩ := ih hidle' h
    exact ⟨ls ++ ls', exec_append.mpr ⟨t, hls, hls'⟩, hidle''⟩

/-! ## Every run -/

/-- The element the pusher is returning. -/
def Sys.returning (s : Sys) : List ℕ := (s.pusher.map Prod.fst).toList

/-- What holds of a pool of `n` usable elements whatever the threads are doing. `free` is the list
the links spell, `taking` the element the popper has unhooked and not handed out yet, `returning` the
one the pusher has not put into the list yet. -/
structure Sound (n : ℕ) (s : Sys) (free taking returning : List ℕ) : Prop where
  /-- The links lead from `head` through `free` to `tail`, without a cycle. -/
  path : ∃ rest, free = s.pool.head :: rest ∧ Linked s.pool.nextFree s.pool.tail s.pool.head rest
  /-- Each of the `n + 1` elements is free, in transit, or with one holder. -/
  once : (s.held ++ taking ++ returning ++ free).Perm (List.range (n + 1))
  taking_le : taking.length ≤ 1 ∧ (s.popper = none → taking = [])
  returning_sub : returning.Sublist s.returning
  /-- The elements on the path are not marked, the held ones are. -/
  marks : (∀ i ∈ free, s.pool.nextFree i ≠ vcablkPoolUsed) ∧
    ∀ i ∈ s.held, s.pool.nextFree i = vcablkPoolUsed
  /-- First the fresh elements are handed out, then the returned ones in the order of their return. -/
  fifo : s.out <+: List.range (n + 1) ++ s.back
  /-- At most `n` elements are out, and a pop fails exactly when all of them are. -/
  capacity : s.held.length + taking.length + returning.length ≤ n ∧
    ∀ k, s.popper = some (.act .tail k) →
      (k s.pool.tail = .ret none ↔ s.held.length + returning.length = n)
  getById : (∀ i ∈ s.held, s.pool.vcablkPoolGetById i = some i) ∧
    ∀ i ∈ free, s.pool.vcablkPoolGetById i = none
  /-- The `BUG_ON` of a push does not fire. -/
  noBug : ∀ i, s.pusher ≠ some (i, .ret false)

/-- What holds in addition when no operation is underway. -/
structure Exact (n : ℕ) (s : Sys) : Prop where
  path : ∃ rest, Linked s.pool.nextFree s.pool.tail s.pool.head rest ∧
    (s.pool.head :: rest).Nodup ∧
    ∀ i, i ∈ s.pool.head :: rest ↔ i < n + 1 ∧ s.pool.nextFree i ≠ vcablkPoolUsed
  once : s.held.Nodup
  fifo : s.out <+: List.range (n + 1) ++ s.back
  capacity : s.held.length ≤ n ∧ (s.pool.vcablkPoolPop = none ↔ s.held.length = n)
  getById : ∀ i, s.pool.vcablkPoolGetById i = some i ↔ i ∈ s.held
  noBug : ∀ i ∈ s.held, ∃ pool, s.pool.vcablkPoolPush i = some pool

section Spec

variable {n : ℕ} {s : Sys} {free bare marked bare' marked' : List ℕ}

theorem PushAt.sublist {num tail : ℕ} {f : ℕ → ℕ} (h : PushAt num tail f s.pusher bare marked) :
    (bare ++ marked).Sublist s.returning := by
  rw [Sys.returning]
  generalize s.pusher = p at h
  cases h <;> simp

theorem At.length_eq (h : At n s free bare marked bare' marked') :
    s.held.length + (bare ++ marked).length + (bare' ++ marked').length + free.length = n + 1 := by
  have := h.perm.length_eq
  simpa only [List.length_append, List.length_range, h.num] using this

theorem At.free_pos (h : At n s free bare marked bare' marked') : 1 ≤ free.length := by
  obtain ⟨rest, rfl, -⟩ := h.linked
  exact Nat.succ_pos _

/-- The list has one element exactly when `head` and `tail` meet. -/
theorem At.length_free_eq_one (h : At n s free bare marked bare' marked') :
    free.length = 1 ↔ s.pool.head = s.pool.tail := by
  obtain ⟨rest, rfl, hlink⟩ := h.linked
  have hnd := h.nodup_free
  cases rest with
  | nil => simpa using (show s.pool.head = s.pool.tail from hlink)
  | cons x xs =>
    have hne : s.pool.head ≠ s.pool.tail := fun heq ↦
      (List.nodup_cons.mp hnd).1 (heq ▸ hlink.2.tail_mem)
    simpa using hne

theorem At.marks (h : At n s free bare marked bare' marked') :
    (∀ i ∈ free, s.pool.nextFree i ≠ vcablkPoolUsed) ∧
      ∀ i ∈ s.held, s.pool.nextFree i = vcablkPoolUsed := by
  refine ⟨fun i hi hused ↦ h.notMem_free ?_ hi, fun i hi ↦ ?_⟩
  · have hlt : i < s.pool.num := h.lt_num (by simp [hi])
    rcases (h.used i hlt).mp hused with hmem | hmem | hmem <;> simp [hmem]
  · exact (h.used i (h.lt_num (by simp [hi]))).mpr (.inl hi)

theorem At.sound (h : At n s free bare marked bare' marked') :
    Sound n s free (bare ++ marked) (bare' ++ marked') where
  path := h.linked
  once := h.num ▸ h.perm
  taking_le := by
    have hpop := h.pop
    generalize s.popper = p at hpop
    cases hpop <;> simp
  returning_sub := h.push.sublist
  marks := h.marks
  fifo := by
    rw [← h.num, ← h.order, List.append_assoc, List.append_assoc]
    exact List.prefix_append ..
  capacity := by
    have hlen := h.length_eq
    have hpos := h.free_pos
    refine ⟨by omega, fun k hk ↦ ?_⟩
    have hpop := h.pop
    have hone := h.length_free_eq_one
    rw [hk] at hpop
    cases hpop
    simp only [List.length_append, List.length_nil, Nat.add_zero] at hlen ⊢
    by_cases hmeet : s.pool.head = s.pool.tail
    · have := hone.mpr hmeet
      rw [if_neg (not_not.mpr hmeet)]
      exact iff_of_true rfl (by omega)
    · have : free.length ≠ 1 := fun hlen' ↦ hmeet (hone.mp hlen')
      rw [if_pos hmeet]
      exact iff_of_false (fun hret ↦ by cases hret) (by omega)
  getById := by
    obtain ⟨hfree, hheld⟩ := h.marks
    refine ⟨fun i hi ↦ ?_, fun i hi ↦ ?_⟩
    · exact if_pos ⟨h.lt_num (by simp [hi]), hheld i hi⟩
    · exact if_neg fun hused ↦ hfree i hi hused.2
  noBug := by
    intro i hi
    have hpush := h.push
    rw [hi] at hpush
    cases hpush

theorem At.exact (h : At n s free bare marked bare' marked') (hidle : s.Idle) : Exact n s := by
  have hpop := h.pop
  have hpush := h.push
  rw [hidle.1] at hpop
  rw [hidle.2] at hpush
  cases hpop
  cases hpush
  have hlen := h.length_eq
  have hpos := h.free_pos
  have hone := h.length_free_eq_one
  have hused := h.used
  simp only [List.append_nil, List.length_nil, Nat.add_zero, List.not_mem_nil, or_false] at hlen hused
  have hheld : ∀ i, i ∈ s.held ↔ i < s.pool.num ∧ s.pool.nextFree i = vcablkPoolUsed := fun i ↦
    ⟨fun hi ↦ ⟨h.lt_num (by simp [hi]), h.marks.2 i hi⟩, fun hi ↦ (hused i hi.1).mp hi.2⟩
  obtain ⟨rest, rfl, hlink⟩ := h.linked
  refine ⟨⟨rest, hlink, h.nodup_free, fun i ↦ ?_⟩, ?_, h.sound.fifo, ⟨by omega, ?_⟩, fun i ↦ ?_,
    fun i hi ↦ ?_⟩
  · rw [← h.num]
    refine ⟨fun hi ↦ ⟨h.lt_num (by simp at hi ⊢; tauto), h.marks.1 i hi⟩, fun hi ↦ ?_⟩
    have hcount := h.count i
    have hnot : i ∉ s.held := fun hmem ↦ hi.2 (h.marks.2 i hmem)
    rw [if_pos hi.1, List.count_eq_zero.mpr hnot] at hcount
    simp only [List.count_nil, Nat.zero_add] at hcount
    exact List.count_pos_iff.mp (hcount ▸ Nat.one_pos)
  · exact List.nodup_iff_count_le_one.mpr fun j ↦ by
      have := h.count j
      split at this <;> omega
  · rw [vcablkPoolPop]
    split
    · rename_i hne
      have : (s.pool.head :: rest).length ≠ 1 := fun hlen' ↦ hne (hone.mp hlen')
      exact iff_of_false (by simp) (by omega)
    · rename_i hmeet
      have := hone.mpr (not_not.mp hmeet)
      exact iff_of_true rfl (by omega)
  · rw [hheld, vcablkPoolGetById]
    split <;> simp_all
  · obtain ⟨hlt, hmark⟩ := (hheld i).mp hi
    exact ⟨_, if_neg (by simp [hlt, hmark])⟩

end Spec

/-- **The free list.** A fresh pool of `n` usable elements is sound after every sequence of
operations, and after every interleaving of the loads and stores of one popper and one pusher; and
whenever neither is underway, nothing distinguishes the pool from one used sequentially. -/
theorem pool_free_list {n : ℕ} {pool : VcablkPool} (h : vcablkPoolInit n = some pool) :
    (∀ ops s, exec seqStep (start pool) ops = some s → Exact n s) ∧
      ∀ ls s, exec step (start pool) ls = some s →
        (∃ free taking returning, Sound n s free taking returning) ∧ (s.Idle → Exact n s) := by
  have hrun (ls : List Label) (s : Sys) (hs : exec step (start pool) ls = some s) : Inv n s := by
    refine exec_invariant (P := fun _ _ _ ↦ True) (fun (hat : Inv n _) _ hs ↦ ?_)
      (along_of_forall fun _ _ _ ↦ trivial) ⟨_, _, _, _, _, At.start h⟩ hs
    obtain ⟨free, bare, marked, bare', marked', hat⟩ := hat
    exact hat.step hs
  refine ⟨fun ops s hs ↦ ?_, fun ls s hs ↦ ?_⟩
  · obtain ⟨ls, hls, hidle⟩ := exec_of_seq (s := start pool) ⟨rfl, rfl⟩ hs
    obtain ⟨free, bare, marked, bare', marked', hat⟩ := hrun ls s hls
    exact hat.exact hidle
  · obtain ⟨free, bare, marked, bare', marked', hat⟩ := hrun ls s hs
    exact ⟨⟨_, _, _, hat.sound⟩, hat.exact⟩

theorem pool_overlapping_run :
    ∃ s, exec step (start (vcablkPoolClear 3)) [.popStart, .pop, .pop, .pop, .pop, .pop, .pop, .pop,
        .pop, .popStart, .pop, .pushStart 0, .push, .pop, .push, .pop, .pop, .push, .pop, .push, .pop,
        .pop, .push, .pop, .push] = some s ∧
      s.out = [0, 1] ∧ s.back = [0] ∧ s.held = [1] ∧ Exact 2 s := by
  obtain ⟨s, hs, hout, hback, hheld, hidle⟩ : ∃ s, exec step (start (vcablkPoolClear 3)) [.popStart,
        .pop, .pop, .pop, .pop, .pop, .pop, .pop, .pop, .popStart, .pop, .pushStart 0, .push, .pop,
        .push, .pop, .pop, .push, .pop, .push, .pop, .pop, .push, .pop, .push] = some s ∧
      s.out = [0, 1] ∧ s.back = [0] ∧ s.held = [1] ∧ s.Idle := ⟨_, rfl, rfl, rfl, rfl, rfl, rfl⟩
  have hinit : vcablkPoolInit 2 = some (vcablkPoolClear 3) := rfl
  exact ⟨s, hs, hout, hback, hheld, ((pool_free_list hinit).2 _ s hs).2 hidle⟩

end Vcass.BlockIo.PoolThreads
