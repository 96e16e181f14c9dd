import Mathlib.Logic.Relation

/-!
# Runs of partial step functions

A concurrent system is given by a state type, a type of labels and a partial step function: the
label says which agent moves and what its environment answers, and the step is `none` when that
move is not enabled. A *run* is a list of labels; `exec` computes the state it leads to, so a
particular run can be evaluated, and the two rules below are how every run is reasoned about.

## Conditions along a run

`Along P` asks `P` of every transition a run takes. It is what "in every run whose steps all meet
the condition" means here; with `P` trivially true it is no condition at all.

## Simulation

`exec_simulation` moves a run of the step function to a path of an abstract transition relation.
The relation between the two state spaces is arbitrary and a concrete step may be matched by any
number of abstract ones, including none.
-/

namespace Conc

variable {σ ℓ A : Type*}

/-- Run a partial step function along a list of labels. -/
def exec (step : σ → ℓ → Option σ) : σ → List ℓ → Option σ
  | s, [] => some s
  | s, l :: ls => (step s l).bind fun s' ↦ exec step s' ls

/-- Every transition of the run satisfies `P`. -/
def Along (P : σ → ℓ → σ → Prop) (step : σ → ℓ → Option σ) : σ → List ℓ → Prop
  | _, [] => True
  | s, l :: ls => ∀ s', step s l = some s' → P s l s' ∧ Along P step s' ls

variable {step : σ → ℓ → Option σ} {P : σ → ℓ → σ → Prop} {s t : σ} {l : ℓ} {ls : List ℓ}

@[simp] theorem exec_nil : exec step s [] = some s := rfl

@[simp] theorem exec_cons :
    exec step s (l :: ls) = some t ↔ ∃ s', step s l = some s' ∧ exec step s' ls = some t := by
  rw [exec, Option.bind_eq_some_iff]

theorem exec_append {ls' : List ℓ} :
    exec step s (ls ++ ls') = some t ↔
      ∃ u, exec step s ls = some u ∧ exec step u ls' = some t := by
  induction ls generalizing s with
  | nil => simp
  | cons l ls ih =>
    rw [List.cons_append, exec_cons]
    constructor
    · rintro ⟨s', hs', h⟩
      obtain ⟨u, hu, ht⟩ := ih.mp h
      exact ⟨u, exec_cons.mpr ⟨s', hs', hu⟩, ht⟩
    · rintro ⟨u, hu, ht⟩
      obtain ⟨s', hs', hu⟩ := exec_cons.mp hu
      exact ⟨s', hs', ih.mpr ⟨u, hu, ht⟩⟩

theorem along_of_forall (h : ∀ s l s', P s l s') : Along P step s ls := by
  induction ls generalizing s with
  | nil => trivial
  | cons l ls ih => exact fun s' _ ↦ ⟨h s l s', ih⟩

/-- A condition that can be decided can be checked along a given run. -/
instance Along.decidable [∀ s l s', Decidable (P s l s')] :
    ∀ (s : σ) (ls : List ℓ), Decidable (Along P step s ls)
  | _, [] => isTrue trivial
  | s, l :: ls =>
    match h : step s l with
    | none => isTrue fun s' hs' ↦ by
        rw [h] at hs'
        cases hs'
    | some s' =>
      have := Along.decidable s' ls
      decidable_of_iff (P s l s' ∧ Along P step s' ls) ⟨fun hP u hu ↦ by
        obtain rfl : s' = u := Option.some_inj.mp (h.symm.trans hu)
        exact hP, fun hP ↦ hP s' h⟩

/-- A condition on the labels alone. -/
theorem along_of_mem (h : ∀ l ∈ ls, ∀ s s', P s l s') : Along P step s ls := by
  induction ls generalizing s with
  | nil => trivial
  | cons l ls ih =>
    exact fun s' _ ↦ ⟨h l List.mem_cons_self s s', ih fun l hl ↦ h l (List.mem_cons_of_mem _ hl)⟩

theorem Along.mono {Q : σ → ℓ → σ → Prop} (hPQ : ∀ s l s', P s l s' → Q s l s')
    (h : Along P step s ls) : Along Q step s ls := by
  induction ls generalizing s with
  | nil => trivial
  | cons l ls ih => exact fun s' hs' ↦ ⟨hPQ _ _ _ (h s' hs').1, ih (h s' hs').2⟩

theorem Along.and {Q : σ → ℓ → σ → Prop} (hP : Along P step s ls) (hQ : Along Q step s ls) :
    Along (fun s l s' ↦ P s l s' ∧ Q s l s') step s ls := by
  induction ls generalizing s with
  | nil => trivial
  | cons l ls ih =>
    exact fun s' hs' ↦ ⟨⟨(hP s' hs').1, (hQ s' hs').1⟩, ih (hP s' hs').2 (hQ s' hs').2⟩

theorem Along.of_append {ls' : List ℓ} (h : Along P step s (ls ++ ls'))
    (hs : exec step s ls = some t) : Along P step s ls ∧ Along P step t ls' := by
  induction ls generalizing s with
  | nil =>
    rw [exec_nil, Option.some_inj] at hs
    subst hs
    exact ⟨trivial, h⟩
  | cons l ls ih =>
    obtain ⟨s', hs', hrun⟩ := exec_cons.mp hs
    have htail := ih (h s' hs').2 hrun
    refine ⟨fun u hu ↦ ?_, htail.2⟩
    obtain rfl : s' = u := Option.some_inj.mp (hs'.symm.trans hu)
    exact ⟨(h _ hs').1, htail.1⟩

theorem Along.append {ls' : List ℓ} (h : Along P step s ls) (hs : exec step s ls = some t)
    (h' : Along P step t ls') : Along P step s (ls ++ ls') := by
  induction ls generalizing s with
  | nil =>
    rw [exec_nil, Option.some_inj] at hs
    subst hs
    exact h'
  | cons l ls ih =>
    obtain ⟨s', hs', hrun⟩ := exec_cons.mp hs
    intro u hu
    obtain rfl : s' = u := Option.some_inj.mp (hs'.symm.trans hu)
    exact ⟨(h _ hs').1, ih (h _ hs').2 hrun⟩

/-- A condition may be read off the end of a run, if what it asks of the last state passes to the
states before. -/
theorem along_of_exec {G : σ → Prop}
    (hback : ∀ {s l s'}, step s l = some s' → G s' → G s ∧ P s l s')
    (h : exec step s ls = some t) (ht : G t) : G s ∧ Along P step s ls := by
  induction ls generalizing s with
  | nil =>
    rw [exec_nil, Option.some_inj] at h
    exact ⟨h ▸ ht, trivial⟩
  | cons l ls ih =>
    obtain ⟨s', hs', hrun⟩ := exec_cons.mp h
    obtain ⟨hG, htail⟩ := ih hrun
    obtain ⟨hG', hP⟩ := hback hs' hG
    refine ⟨hG', fun u hu ↦ ?_⟩
    obtain rfl : s' = u := Option.some_inj.mp (hs'.symm.trans hu)
    exact ⟨hP, htail⟩

/-- **The invariant rule.** What one admissible transition preserves, every run of admissible
transitions preserves. -/
theorem exec_invariant {Inv : σ → Prop}
    (hstep : ∀ {s l s'}, Inv s → P s l s' → step s l = some s' → Inv s')
    (hP : Along P step s ls) (hs : Inv s) (h : exec step s ls = some t) : Inv t := by
  induction ls generalizing s with
  | nil =>
    rw [exec_nil, Option.some_inj] at h
    exact h ▸ hs
  | cons l ls ih =>
    obtain ⟨s', hs', hrun⟩ := exec_cons.mp h
    exact ih (hP s' hs').2 (hstep hs (hP s' hs').1 hs') hrun

/-- Two conditions that agree at each step agree along a run, if meeting them keeps what their agreement
rests on. -/
theorem along_congr {I : σ → Prop} {R : σ → ℓ → σ → Prop}
    (hstep : ∀ {s l s'}, I s → step s l = some s' → (R s l s' ↔ P s l s') ∧ (R s l s' → I s'))
    (hs : I s) : Along R step s ls ↔ Along P step s ls := by
  induction ls generalizing s with
  | nil => exact iff_of_true trivial trivial
  | cons l ls ih =>
    constructor
    · intro h s' hs'
      obtain ⟨hR, htail⟩ := h s' hs'
      obtain ⟨hiff, hI⟩ := hstep hs hs'
      exact ⟨hiff.mp hR, (ih (hI hR)).mp htail⟩
    · intro h s' hs'
      obtain ⟨hP, htail⟩ := h s' hs'
      obtain ⟨hiff, hI⟩ := hstep hs hs'
      exact ⟨hiff.mpr hP, (ih (hI (hiff.mpr hP))).mpr htail⟩

/-- **The simulation rule.** If every admissible step is matched by a path of the relation `T`,
so is every run. -/
theorem exec_simulation {Sim : σ → A → Prop} {T : A → A → Prop} {a : A}
    (hstep : ∀ {s l s' a}, Sim s a → P s l s' → step s l = some s' →
      ∃ a', Relation.ReflTransGen T a a' ∧ Sim s' a')
    (hP : Along P step s ls) (hs : Sim s a) (h : exec step s ls = some t) :
    ∃ a', Relation.ReflTransGen T a a' ∧ Sim t a' := by
  induction ls generalizing s a with
  | nil =>
    rw [exec_nil, Option.some_inj] at h
    exact ⟨a, .refl, h ▸ hs⟩
  | cons l ls ih =>
    obtain ⟨s', hs', hrun⟩ := exec_cons.mp h
    obtain ⟨a', hpath, hsim⟩ := hstep hs (hP s' hs').1 hs'
    obtain ⟨b, hpath', hsim'⟩ := ih (hP s' hs').2 hsim hrun
    exact ⟨b, hpath.trans hpath', hsim'⟩

/-- **The projection rule.** If every step is a step of the component `f`, or leaves it alone, then every
run contains a run of the component. -/
theorem exec_projection {τ m : Type*} {f : σ → τ} {step' : τ → m → Option τ}
    (hstep : ∀ {s l s'}, step s l = some s' → f s' = f s ∨ ∃ x, step' (f s) x = some (f s'))
    (h : exec step s ls = some t) : ∃ xs, exec step' (f s) xs = some (f t) := by
  induction ls generalizing s with
  | nil =>
    rw [exec_nil, Option.some_inj] at h
    exact ⟨[], by rw [exec_nil, h]⟩
  | cons l ls ih =>
    obtain ⟨s', hs', hrun⟩ := exec_cons.mp h
    obtain ⟨xs, hxs⟩ := ih hrun
    rcases hstep hs' with hsame | ⟨x, hx⟩
    · exact ⟨xs, hsame ▸ hxs⟩
    · exact ⟨x :: xs, exec_cons.mpr ⟨_, hx, hxs⟩⟩

/-- The invariant rule for paths of a relation. -/
theorem path_invariant {T : A → A → Prop} {Inv : A → Prop} {a b : A}
    (hstep : ∀ {a b}, Inv a → T a b → Inv b) (ha : Inv a) (h : Relation.ReflTransGen T a b) :
    Inv b := by
  induction h with
  | refl => exact ha
  | tail _ hT ih => exact hstep ih hT

end Conc
