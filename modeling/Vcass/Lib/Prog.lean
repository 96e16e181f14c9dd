import Mathlib.Logic.Basic

/-!
# Programs of atomic operations

The code of a thread is a finite tree of atomic operations: `act o k` performs `o` and continues
with `k r` once the operation has answered `r`. Trees form a monad, so the code of a sequential
function is written in `do` notation, and a system interleaves several threads by performing the
first operation of one of them at a time.

What an operation does to the shared state is not part of the tree. Two programs that perform the
same operations are therefore equal trees, and a program is brought into the shape a proof wants by
plain rewriting: `bind_assoc` moves what follows a loop into the loop, and `discard` forgets a result
that nobody reads.
-/

namespace Conc

/-- A finite tree of atomic operations `o : ω` with results of type `ρ o`. -/
inductive Prog (ω : Type) (ρ : ω → Type) (α : Type) : Type
  | ret (a : α)
  | act (o : ω) (k : ρ o → Prog ω ρ α)

namespace Prog

variable {ω : Type} {ρ : ω → Type} {α β γ : Type}

/-- Sequential composition. -/
def bind : Prog ω ρ α → (α → Prog ω ρ β) → Prog ω ρ β
  | ret a, f => f a
  | act o k, f => act o fun r ↦ (k r).bind f

instance : Monad (Prog ω ρ) where
  pure := ret
  bind := bind

/-- Perform one operation. -/
def perform (o : ω) : Prog ω ρ (ρ o) := act o ret

@[simp] theorem pure_eq (a : α) : (pure a : Prog ω ρ α) = ret a := rfl

@[simp] theorem ret_bind (a : α) (f : α → Prog ω ρ β) : (ret a >>= f) = f a := rfl

@[simp] theorem act_bind (o : ω) (k : ρ o → Prog ω ρ α) (f : α → Prog ω ρ β) :
    (act o k >>= f) = act o fun r ↦ k r >>= f := rfl

@[simp] theorem perform_bind (o : ω) (f : ρ o → Prog ω ρ β) :
    (perform o >>= f) = act o f := rfl

@[simp] theorem bind_assoc (p : Prog ω ρ α) (f : α → Prog ω ρ β) (g : β → Prog ω ρ γ) :
    (p >>= f >>= g) = p >>= fun a ↦ f a >>= g := by
  induction p with
  | ret a => rfl
  | act o k ih => exact congrArg (act o) (funext fun r ↦ ih r)

/-- Every operation that the program may come to perform satisfies `P`. -/
def Only (P : ω → Prop) : Prog ω ρ α → Prop
  | ret _ => True
  | act o k => P o ∧ ∀ r, (k r).Only P

section Only

variable {P : ω → Prop} {p : Prog ω ρ α} {f : α → Prog ω ρ β}

@[simp] theorem only_ret (a : α) : (ret a : Prog ω ρ α).Only P := trivial

@[simp] theorem only_act {o : ω} {k : ρ o → Prog ω ρ α} : (act o k).Only P ↔ P o ∧ ∀ r, (k r).Only P :=
  Iff.rfl

@[simp] theorem only_perform {o : ω} : (perform o : Prog ω ρ (ρ o)).Only P ↔ P o :=
  ⟨And.left, fun h ↦ ⟨h, fun _ ↦ trivial⟩⟩

theorem Only.bind (h : p.Only P) (hf : ∀ a, (f a).Only P) : (p >>= f).Only P := by
  induction p with
  | ret a => exact hf a
  | act o k ih => exact ⟨h.1, fun r ↦ ih r (h.2 r)⟩

end Only

/-- The same operations, with the result forgotten. -/
def discard (p : Prog ω ρ α) : Prog ω ρ Unit := p >>= fun _ ↦ ret ()

theorem eq_ret_of_discard {p : Prog ω ρ α} (h : p.discard = ret ()) : ∃ a, p = ret a := by
  cases p with
  | ret a => exact ⟨a, rfl⟩
  | act o k => exact absurd h (by simp [discard])

theorem eq_act_of_discard {p : Prog ω ρ α} {o : ω} {k : ρ o → Prog ω ρ Unit}
    (h : p.discard = act o k) : ∃ k', p = act o k' ∧ ∀ r, (k' r).discard = k r := by
  cases p with
  | ret a => exact absurd h (by simp [discard])
  | act o' k' =>
    rw [discard, act_bind, act.injEq] at h
    obtain ⟨rfl, h⟩ := h
    exact ⟨k', rfl, fun r ↦ congrFun (eq_of_heq h) r⟩

end Prog

end Conc
