import Vcass.Lib.Prog

/-!
# Programs under interference

Rely-guarantee reasoning for programs of atomic operations. The shared state satisfies an invariant
`I` between any two operations. While a thread runs, the others may change the state within the
*rely* relation `R` of that thread; the thread itself changes it within its *guarantee* `G`.
`Safe p Q s` says that the program `p`, started in `s`, keeps the invariant and the guarantee with
every operation and ends in `Q`.

Safety is defined by recursion on the program, so the safety of what is left of a thread's program
is itself an invariant of the system: one operation turns it into the safety of the rest
(`Safe.step`), a step of another thread leaves it intact (`Safe.stable`). Code is verified function
by function with the rule for sequencing (`Safe.bind`).
-/

namespace Conc.Prog

variable {ω : Type} {ρ : ω → Type} {σ ι α β : Type}
variable {sem : σ → (o : ω) → ι → Option (ρ o × σ)} {I : σ → Prop} {R G : σ → σ → Prop}

/-- Between its operations the program tolerates `R`; each operation keeps `I` and is within `G`;
the result satisfies `Q`. -/
def Safe (sem : σ → (o : ω) → ι → Option (ρ o × σ)) (I : σ → Prop) (R G : σ → σ → Prop)
    (Q : α → σ → Prop) : Prog ω ρ α → σ → Prop
  | ret a, s => ∀ s', R s s' → I s' → Q a s'
  | act o k, s => ∀ s', R s s' → I s' → ∀ c r s'', sem s' o c = some (r, s'') →
      I s'' ∧ G s' s'' ∧ Safe sem I R G Q (k r) s''

/-- The interference of the other threads: any number of their steps, including none. -/
structure IsRely (R : σ → σ → Prop) : Prop where
  refl : ∀ s, R s s
  trans : ∀ {s t u}, R s t → R t u → R s u

variable {Q Q' : α → σ → Prop} {p : Prog ω ρ α} {s s' : σ}

theorem Safe.stable (hR : IsRely R) (h : Safe sem I R G Q p s) (hs : R s s') :
    Safe sem I R G Q p s' := by
  cases p with
  | ret a => exact fun t ht ↦ h t (hR.trans hs ht)
  | act o k => exact fun t ht ↦ h t (hR.trans hs ht)

theorem Safe.step {o : ω} {k : ρ o → Prog ω ρ α} {c : ι} {r : ρ o} (hR : IsRely R)
    (h : Safe sem I R G Q (act o k) s) (hI : I s) (hs : sem s o c = some (r, s')) :
    I s' ∧ G s s' ∧ Safe sem I R G Q (k r) s' := h s (hR.refl s) hI c r s' hs

theorem Safe.result {a : α} (hR : IsRely R) (h : Safe sem I R G Q (ret a) s) (hI : I s) : Q a s :=
  h s (hR.refl s) hI

/-- A program may be shown safe after the interference that precedes it. -/
theorem Safe.of_interference (hR : IsRely R)
    (h : ∀ s', R s s' → I s' → Safe sem I R G Q p s') : Safe sem I R G Q p s := by
  cases p with
  | ret a => exact fun s' hs hI ↦ h s' hs hI s' (hR.refl s') hI
  | act o k => exact fun s' hs hI ↦ h s' hs hI s' (hR.refl s') hI

/-- The rule of consequence. -/
theorem Safe.mono (h : Safe sem I R G Q p s) (hQ : ∀ a s, I s → Q a s → Q' a s) :
    Safe sem I R G Q' p s := by
  induction p generalizing s with
  | ret a => exact fun s' hs hI ↦ hQ a s' hI (h s' hs hI)
  | act o k ih =>
    intro s' hs hI c r s'' hsem
    obtain ⟨hI', hG, hk⟩ := h s' hs hI c r s'' hsem
    exact ⟨hI', hG, ih r hk⟩

/-- The rule of sequencing. -/
theorem Safe.bind {f : α → Prog ω ρ β} {Q : β → σ → Prop} (hR : IsRely R)
    (h : Safe sem I R G (fun a s ↦ Safe sem I R G Q (f a) s) p s) :
    Safe sem I R G Q (p >>= f) s := by
  induction p generalizing s with
  | ret a => exact Safe.of_interference hR h
  | act o k ih =>
    intro s' hs hI c r s'' hsem
    obtain ⟨hI', hG, hk⟩ := h s' hs hI c r s'' hsem
    exact ⟨hI', hG, ih r hk⟩

end Conc.Prog
