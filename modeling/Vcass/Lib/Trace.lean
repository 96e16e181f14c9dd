import Vcass.Lib.Prog
import Vcass.Lib.Run

/-!
# Complete runs of a program

A run of a program is the list of its operations with their answers. Which answers an operation may get is up to
whoever serves it: a *server* is a partial step function whose labels are the events, which is defined where the
answer is right. So what holds of every run of a program, whatever the answers, is stated about `Performs`, and
what holds if the program is served is stated about the runs that the server executes.

A program that leaves the state of the server as it is and can only end in one way `Yields` its result.
-/

namespace Conc

/-- An operation and its answer. -/
abbrev Event (ω : Type) (ρ : ω → Type) : Type := (o : ω) × ρ o

namespace Prog

variable {ω σ : Type} {ρ : ω → Type} {α β : Type}

/-- The program performs these operations, with these answers, and ends with the result. -/
def Performs : Prog ω ρ α → List (Event ω ρ) → α → Prop
  | ret a, tr, b => tr = [] ∧ a = b
  | act o k, tr, b => ∃ r tr', tr = ⟨o, r⟩ :: tr' ∧ (k r).Performs tr' b

section Performs

variable {p : Prog ω ρ α} {f : α → Prog ω ρ β} {tr : List (Event ω ρ)} {a : α} {b : β} {o : ω}

@[simp] theorem performs_ret {a b : α} : (ret a : Prog ω ρ α).Performs tr b ↔ tr = [] ∧ a = b := Iff.rfl

@[simp] theorem performs_act {k : ρ o → Prog ω ρ α} :
    (act o k).Performs tr a ↔ ∃ r tr', tr = ⟨o, r⟩ :: tr' ∧ (k r).Performs tr' a := Iff.rfl

/-- A run of a sequence is a run of its parts. -/
theorem performs_bind : (p >>= f).Performs tr b ↔
    ∃ a tr₁ tr₂, tr = tr₁ ++ tr₂ ∧ p.Performs tr₁ a ∧ (f a).Performs tr₂ b := by
  induction p generalizing tr with
  | ret a =>
    constructor
    · intro h
      exact ⟨a, [], tr, rfl, ⟨rfl, rfl⟩, h⟩
    · rintro ⟨a', tr₁, tr₂, rfl, ⟨rfl, rfl⟩, h⟩
      exact h
  | act o k ih =>
    constructor
    · rintro ⟨r, tr', rfl, h⟩
      -- the first operation belongs to the first part
      obtain ⟨a, tr₁, tr₂, rfl, hp, hf⟩ := (ih r).mp h
      exact ⟨a, ⟨o, r⟩ :: tr₁, tr₂, rfl, ⟨r, tr₁, rfl, hp⟩, hf⟩
    · rintro ⟨a, tr₁, tr₂, rfl, ⟨r, tr', rfl, hp⟩, hf⟩
      exact ⟨r, tr' ++ tr₂, rfl, (ih r).mpr ⟨a, tr', tr₂, rfl, hp, hf⟩⟩

theorem Performs.only {P : ω → Prop} (h : p.Performs tr a) (hp : p.Only P) : ∀ e ∈ tr, P e.1 := by
  induction p generalizing tr with
  | ret a' =>
    obtain ⟨rfl, -⟩ := h
    exact fun e he ↦ absurd he List.not_mem_nil
  | act o k ih =>
    obtain ⟨r, tr', rfl, h⟩ := h
    intro e he
    rcases List.mem_cons.mp he with rfl | he
    · exact hp.1
    · exact ih r h (hp.2 r) e he

end Performs

section Server

variable {serve : σ → Event ω ρ → Option σ} {s : σ} {p : Prog ω ρ α} {f : α → Prog ω ρ β} {a : α} {b : β}

/-- If every operation can be served, so can every program. -/
theorem exists_served (h : ∀ s o, ∃ r t, serve s ⟨o, r⟩ = some t) (s : σ) (p : Prog ω ρ α) :
    ∃ tr a t, p.Performs tr a ∧ exec serve s tr = some t := by
  induction p generalizing s with
  | ret a => exact ⟨[], a, s, ⟨rfl, rfl⟩, rfl⟩
  | act o k ih =>
    obtain ⟨r, t, ht⟩ := h s o
    obtain ⟨tr, a, u, hp, hu⟩ := ih r t
    exact ⟨⟨o, r⟩ :: tr, a, u, ⟨r, tr, rfl, hp⟩, exec_cons.mpr ⟨t, ht, hu⟩⟩

/-- However the program is served, it ends with the result and leaves the state. -/
def Yields (serve : σ → Event ω ρ → Option σ) (s : σ) (p : Prog ω ρ α) (a : α) : Prop :=
  ∀ tr b t, p.Performs tr b → exec serve s tr = some t → b = a ∧ t = s

theorem yields_ret (a : α) : Yields serve s (ret a) a := by
  rintro tr b t ⟨rfl, rfl⟩ ht
  exact ⟨rfl, (Option.some_inj.mp ht).symm⟩

/-- An operation that the server can answer in one way. -/
theorem yields_act {o : ω} {k : ρ o → Prog ω ρ α} {r : ρ o} (h : ∀ r' t, serve s ⟨o, r'⟩ = some t → r' = r ∧ t = s)
    (hk : Yields serve s (k r) a) : Yields serve s (act o k) a := by
  rintro tr b t ⟨r', tr', rfl, hp⟩ ht
  obtain ⟨u, hu, hrest⟩ := exec_cons.mp ht
  obtain ⟨rfl, rfl⟩ := h r' u hu
  exact hk tr' b t hp hrest

/-- The result, where the answer of an operation depends on nothing else. -/
def eval (answer : ∀ o, ρ o) : Prog ω ρ α → α
  | ret a => a
  | act o k => (k (answer o)).eval answer

@[simp] theorem eval_ret (answer : ∀ o, ρ o) (a : α) : (ret a : Prog ω ρ α).eval answer = a := rfl

@[simp] theorem eval_bind (answer : ∀ o, ρ o) (p : Prog ω ρ α) (f : α → Prog ω ρ β) :
    (p >>= f).eval answer = (f (p.eval answer)).eval answer := by
  induction p with
  | ret a => rfl
  | act o k ih => exact ih (answer o)

/-- A program all of whose operations the server can answer in one way yields its value. -/
theorem Only.yields {P : ω → Prop} {answer : ∀ o, ρ o} (hp : p.Only P)
    (h : ∀ o, P o → ∀ r t, serve s ⟨o, r⟩ = some t → r = answer o ∧ t = s) :
    Yields serve s p (p.eval answer) := by
  induction p with
  | ret a => exact yields_ret a
  | act o k ih => exact yields_act (h o hp.1) (ih (answer o) (hp.2 (answer o)))

theorem Yields.bind (hp : Yields serve s p a) (hf : Yields serve s (f a) b) : Yields serve s (p >>= f) b := by
  intro tr b' t h ht
  obtain ⟨a', tr₁, tr₂, rfl, hp', hf'⟩ := performs_bind.mp h
  obtain ⟨u, hu, hrest⟩ := exec_append.mp ht
  obtain ⟨rfl, rfl⟩ := hp tr₁ a' u hp' hu
  exact hf tr₂ b' t hf' hrest

theorem Yields.performs_bind (hp : Yields serve s p a) {tr : List (Event ω ρ)} {t : σ}
    (h : (p >>= f).Performs tr b) (ht : exec serve s tr = some t) :
    ∃ tr₁ tr₂, tr = tr₁ ++ tr₂ ∧ p.Performs tr₁ a ∧ exec serve s tr₁ = some s ∧
      (f a).Performs tr₂ b ∧ exec serve s tr₂ = some t := by
  obtain ⟨a', tr₁, tr₂, rfl, hp', hf'⟩ := Prog.performs_bind.mp h
  obtain ⟨u, hu, hrest⟩ := exec_append.mp ht
  obtain ⟨rfl, rfl⟩ := hp tr₁ a' u hp' hu
  exact ⟨tr₁, tr₂, rfl, hp', hu, hf', hrest⟩

end Server

end Prog

end Conc
