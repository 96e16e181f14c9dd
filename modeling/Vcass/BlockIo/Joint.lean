import Vcass.BlockIo.Bcknd.Syncs
import Vcass.BlockIo.Bcknd.Windows
import Vcass.BlockIo.Disk.Successes

/-!
# Block I/O: frontend and backend together

`Disk` is the frontend with an open backend, `Bcknd` the backend with open groups. Here the two meet. The backend's
request thread takes a part out of the request ring and serves it before it takes the next one, and an answer reaches
the completion handler only after the backend has sent it. Between the two it may take any time; the order in which the
answers wait in the completion ring is left open.

A run of the joint system is a run of either side (`exec_front`, `exec_back`), so everything known about one side holds
here. What connects them is `Inv`: part number `k` is group number `k`, and every arrival was sent.
-/

namespace Vcass.BlockIo.Joint

open Conc
open Bcknd (responses)

structure Sys where
  front : Disk.Sys
  back : Bcknd.Sys

inductive Label
  | front (l : Disk.Label)
  | back (l : Bcknd.Label)

/-- Part `k` was answered with a code that the frontend reads as `ret`. -/
def Sent (s : Bcknd.Sys) (k ret : ℕ) : Prop := ∃ x ∈ responses k s.log, u8 x.2 = ret

instance (s : Bcknd.Sys) (k ret : ℕ) : Decidable (Sent s k ret) :=
  inferInstanceAs (Decidable (∃ x ∈ responses k s.log, u8 x.2 = ret))

/-- The request thread of the backend is not inside `vcablk_bcknd_disk_request`, and has served what it has got. -/
def Served (s : Sys) : Prop := s.back.req.isNone = true ∧ s.front.fetched.length = s.back.groups.length

instance (s : Sys) : Decidable (Served s) :=
  inferInstanceAs (Decidable (s.back.req.isNone = true ∧ s.front.fetched.length = s.back.groups.length))

/-- Whether the other side lets a step of the frontend, or of its request ring, happen. -/
def Admits (s : Sys) : Label → Prop
  | .front (.answer k ret) => Sent s.back k ret
  | .front (.fetch _) => Served s
  | .back (.fetch g) => s.front.fetched[s.back.groups.length]? = some g
  | _ => True

instance (s : Sys) : (l : Label) → Decidable (Admits s l)
  | .front (.answer k ret) => inferInstanceAs (Decidable (Sent s.back k ret))
  | .front (.fetch _) => inferInstanceAs (Decidable (Served s))
  | .back (.fetch g) => inferInstanceAs (Decidable (s.front.fetched[s.back.groups.length]? = some g))
  | .front (.requestFn _) | .front .dequeue | .front (.thread _) | .front (.handler _) => isTrue trivial
  | .back (.request _) | .back .dma | .back .callbackStart | .back (.callback _) | .back (.transfer _) =>
    isTrue trivial

/-- One step of either side. -/
def step (mq : Bool) (s : Sys) (l : Label) : Option Sys :=
  if Admits s l then
    match l with
    | .front l => (Disk.step mq s.front l).map fun d ↦ { s with front := d }
    | .back l => (Bcknd.step s.back l).map fun b ↦ { s with back := b }
  else none

def init (media mem : ℕ → UInt8) : Sys := ⟨Disk.init, Bcknd.init media mem⟩

variable {s s' : Sys} {mq : Bool} {media mem : ℕ → UInt8} {ls : List Label}

/-! ## The two sides -/

theorem step_cases {l : Label} (h : step mq s l = some s') : Admits s l ∧
    ((∃ m d, l = .front m ∧ Disk.step mq s.front m = some d ∧ s' = { s with front := d }) ∨
      ∃ m b, l = .back m ∧ Bcknd.step s.back m = some b ∧ s' = { s with back := b }) := by
  unfold step at h
  split at h
  case isTrue hadm =>
    refine ⟨hadm, ?_⟩
    cases l with
    | front m =>
      obtain ⟨d, hd, rfl⟩ := Option.map_eq_some_iff.mp h
      exact .inl ⟨m, d, rfl, hd, rfl⟩
    | back m =>
      obtain ⟨b, hb, rfl⟩ := Option.map_eq_some_iff.mp h
      exact .inr ⟨m, b, rfl, hb, rfl⟩
  case isFalse => simp at h

theorem exec_front (h : exec (step mq) (init media mem) ls = some s) :
    ∃ ms, exec (Disk.step mq) Disk.init ms = some s.front := by
  refine exec_projection (f := Sys.front) (fun {s l s'} hs ↦ ?_) h
  obtain ⟨-, ⟨m, d, -, hd, rfl⟩ | ⟨m, b, -, -, rfl⟩⟩ := step_cases hs
  · exact .inr ⟨m, hd⟩
  · exact .inl rfl

theorem exec_back (h : exec (step mq) (init media mem) ls = some s) :
    ∃ ms, exec Bcknd.step (Bcknd.init media mem) ms = some s.back := by
  refine exec_projection (f := Sys.back) (fun {s l s'} hs ↦ ?_) h
  obtain ⟨-, ⟨m, d, -, -, rfl⟩ | ⟨m, b, -, hb, rfl⟩⟩ := step_cases hs
  · exact .inl rfl
  · exact .inr ⟨m, hb⟩

/-! ## What connects them -/

structure Inv (s : Sys) : Prop where
  groups : s.back.groups <+: s.front.fetched
  sent : ∀ a ∈ s.front.shared.arrivals, Sent s.back a.1 a.2

theorem Sent.mono {b b' : Bcknd.Sys} {k ret : ℕ} (h : Sent b k ret) (hlog : b.log <+: b'.log) : Sent b' k ret := by
  obtain ⟨x, hx, hret⟩ := h
  refine ⟨x, ?_, hret⟩
  rw [Bcknd.mem_responses] at hx ⊢
  exact hlog.subset hx

theorem Inv.step {l : Label} (h : Inv s) (hs : step mq s l = some s') : Inv s' := by
  obtain ⟨hadm, ⟨m, d, rfl, hd, rfl⟩ | ⟨m, b, rfl, hb, rfl⟩⟩ := step_cases hs
  · obtain ⟨harr, hfetched⟩ := Disk.step_adds hd
    refine ⟨h.groups.trans hfetched, ?_⟩
    rcases harr with hsame | ⟨k, ret, rfl, hnew⟩
    · exact hsame ▸ h.sent
    · intro a ha
      rw [show d.shared.arrivals = _ from hnew, List.mem_append, List.mem_singleton] at ha
      rcases ha with ha | rfl
      · exact h.sent a ha
      · exact hadm
  · refine ⟨?_, fun a ha ↦ (h.sent a ha).mono (Bcknd.step_grows hb).1⟩
    rcases (Bcknd.step_grows hb).2 with hsame | ⟨g, rfl, hnew⟩
    · exact hsame.symm ▸ h.groups
    · -- the group comes next among the parts that were got
      obtain ⟨rest, hrest⟩ := h.groups
      have hnext : s.front.fetched[s.back.groups.length]? = some g := hadm
      rw [← hrest, List.getElem?_append_right le_rfl, Nat.sub_self] at hnext
      obtain ⟨tl, rfl⟩ : ∃ tl, rest = g :: tl := by
        cases rest with
        | nil => simp at hnext
        | cons x tl => exact ⟨tl, by rw [Option.some_inj.mp hnext]⟩
      refine ⟨tl, ?_⟩
      rw [show b.groups = _ from hnew, List.append_assoc, List.singleton_append, hrest]

theorem exec_joint (h : exec (step mq) (init media mem) ls = some s) : Inv s := by
  refine exec_invariant (P := fun _ _ _ ↦ True) (fun hs _ hstep ↦ hs.step hstep)
    (along_of_forall fun _ _ _ ↦ trivial) ⟨List.prefix_refl _, ?_⟩ h
  simp [init, Disk.init]

theorem group_eq_part (h : exec (step mq) (init media mem) ls = some s) {k : ℕ} {g : List VcablkRequest}
    (hg : s.back.groups[k]? = some g) : ∃ p, s.front.shared.parts[k]? = some p ∧ p.entries = g := by
  obtain ⟨ms, hms⟩ := exec_front h
  have hgot := (Disk.fetched_eq_published hms).1
  have hfetched := Disk.getElem?_of_isPrefix (exec_joint h).groups hg
  rw [hgot, List.getElem?_map, Option.map_eq_some_iff] at hfetched
  obtain ⟨p, hp, hentries⟩ := hfetched
  refine ⟨p, ?_, hentries⟩
  rw [List.getElem?_take] at hp
  split at hp
  · exact hp
  · simp at hp

end Vcass.BlockIo.Joint
